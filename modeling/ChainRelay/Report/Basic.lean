import ChainRelay.Chain.Fixture
import ChainRelay.Cbor.Value
import ChainRelay.Handshake.Message
import ChainRelay.Handshake.Json
import ChainRelay.Handshake.Party
import ChainRelay.Json.Value

/-! Values of the domain as JSON, for people and tools that watch a node. Byte
strings are in hexadecimal; a long one is reported by its length and its digest. -/
namespace ChainRelay.Report
open Json (Value)

instance : Coe String Value := ⟨.string⟩
instance : Coe Bool Value := ⟨.bool⟩

def num (n : Nat) : Value := .nat n
def long (n : UInt64) : Value := .nat n.toNat
def list {α : Type} (f : α → Value) (xs : List α) : Value := .array (xs.map f)
def pair (a b : Value) : Value := .array [a, b]

def bytesLimit : Nat := 2048

def bytes (b : Bytes) : Value :=
  if b.length ≤ bytesLimit then b.toHex
  else .record [("len", num b.length), ("blake3", (Digest.blake3 b).toHex)]

mutual

/-- Integers are decimal text, because they may exceed what readers of JSON hold. -/
def cbor : Cbor.Value → Value
  | .unsigned n => .record [("int", toString n.toNat)]
  | .negative n => .record [("int", s!"-{n.toNat + 1}")]
  | .bytes b => .record [("bytes", bytes b)]
  | .text s =>
    if s.utf8ByteSize > bytesLimit then .record [("text_bytes", bytes (Bytes.ofText s))]
    else .record [("text", s)]
  | .float x => .record [("float", (Bytes.ofNat 8 x.toNat).toHex)]
  | .bool b => .record [("bool", b)]
  | .null => .record [("null", true)]
  | .tag n v => .record [("tag", pair (long n) (cbor v))]
  | .array vs => .record [("array", .array (cborItems vs))]
  | .map es => .record [("map", .array (cborEntries es))]

def cborItems : List Cbor.Value → List Value
  | [] => []
  | v :: rest => cbor v :: cborItems rest

def cborEntries : List (Cbor.Value × Cbor.Value) → List Value
  | [] => []
  | (k, v) :: rest => pair (cbor k) (cbor v) :: cborEntries rest

end

def hash (h : BlockHash) : Value := h.toHex

def point (p : Point) : Value := .record [("slot", long p.slot), ("hash", .option hash p.hash)]

def tip (t : Tip) : Value :=
  .record [("point", point t.point), ("block_number", long t.blockNumber)]

def header : HeaderContent → Value
  | .shelley era b => .record [("kind", "Shelley"), ("era", long era), ("bytes", bytes b)]
  | .byronMain n b => .record [("kind", "ByronMain"), ("size", long n), ("bytes", bytes b)]
  | .byronBoundary n b => .record [("kind", "ByronBoundary"), ("size", long n), ("bytes", bytes b)]
  | .block b => .record [("kind", "Block"), ("bytes", bytes b)]

def block (b : StoredBlock) : Value :=
  .record [("point", point b.point), ("block_number", long b.blockNumber),
    ("header", bytes b.header), ("body", bytes b.body)]

def table (t : VersionTable) : Value := list (fun (v, d) => pair (long v) d.toJson) t.entries

def reason (r : RefuseReason) : Value :=
  let shown := ("display", Value.string r.display)
  let worded (kind : String) (v : UInt64) (m : String) : Value :=
    .record [shown, ("kind", kind), ("version", long v), ("message", m)]
  match r with
  | .versionMismatch vs => .record [shown, ("kind", "VersionMismatch"), ("versions", list long vs)]
  | .decodeError v m => worded "DecodeError" v m
  | .refused v m => worded "Refused" v m

def agreed (a : UInt64 × VersionData) : Value := pair (long a.1) a.2.toJson

def outcome : Handshake.Outcome → Value
  | .accepted v d => .record [("kind", "Accepted"), ("version", long v), ("data", d.toJson)]
  | .refused r => .record [("kind", "Refused"), ("reason", reason r)]
  | .queried t => .record [("kind", "Queried"), ("table", table t)]

/-- Text whose wording belongs to the reader of CBOR or to the database. -/
def isForeign (message : String) : Bool :=
  ["malformed cbor:", "database error:"].any fun part => (message.splitOn part).length > 1

def errorFields (kind message : String) : List (String × Value) :=
  ("error", kind) :: if isForeign message then [] else [("message", message)]

def error (kind message : String) : Value := .record (errorFields kind message)

def codecError (e : Cbor.Error) : Value := error e.kind e.message

def chainError (e : ChainError) : Value := error e.kind e.message

end ChainRelay.Report
