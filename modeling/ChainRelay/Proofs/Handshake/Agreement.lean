import ChainRelay.Proofs.Handshake.Negotiation
import ChainRelay.Proofs.Protocol.Lawful

/-! A whole handshake over the wire. Either side ends with an outcome of the same kind, and
the two outcomes differ at most in what the wire form of a version leaves out. -/
namespace ChainRelay

namespace VersionMap

variable {α : Type}

theorem contains_of_mem {m : VersionMap α} {e : UInt64 × α} (member : e ∈ m.entries) :
    m.contains e.1 = true := by
  rw [contains, get?, Option.isSome_iff_ne_none]
  intro missing
  have apart := List.lookup_eq_none_iff.mp missing e member
  simp at apart

theorem contains_map {β : Type} (f : UInt64 → α → β) (m : VersionMap α) (version : UInt64) :
    (m.map f).contains version = m.contains version := by
  rw [contains, contains, get?_map, Option.isSome_map]

end VersionMap

namespace VersionData

/-- The parameters are told in full by their wire form. -/
def Survives (version : UInt64) (d : VersionData) : Prop :=
  ofCbor version (d.toCbor version) = .ok d

theorem survives_iff {version : UInt64} {d : VersionData} :
    d.Survives version ↔ d.carried version = d := by
  rw [Survives, ofCbor_toCbor, Except.ok.injEq]

theorem carried_combine {version : UInt64} {own : VersionData} (kept : own.carried version = own)
    (theirs : VersionData) :
    (VersionTable.combine own (theirs.carried version)).carried version =
      VersionTable.combine own (theirs.carried version) := by
  obtain ⟨magic, initiator, sharing, query⟩ := own
  have least : min (0 : UInt8) 0 = 0 := rfl
  cases client : isClientVersion version with
  | true =>
    simp only [carried, client, if_true, new, VersionData.mk.injEq, true_and] at kept ⊢
    obtain ⟨rfl, rfl, -⟩ := kept
    simp [VersionTable.combine, least]
  | false =>
    by_cases late : extendedNode ≤ version
    · simp [carried, client, if_pos late]
    · simp only [carried, client, if_neg late, new, Bool.false_eq_true, if_false,
        VersionData.mk.injEq, true_and] at kept ⊢
      obtain ⟨rfl, -⟩ := kept
      simp [VersionTable.combine, least]

end VersionData

namespace VersionTable

theorem mem_of_negotiate {own theirs : VersionTable} {version : UInt64} {data : VersionData}
    (agreed : own.negotiate (.ofTable theirs) = .ok (version, data)) :
    theirs.contains version = true ∧ ∃ mine, (version, mine) ∈ own.entries ∧
      ∃ offered : VersionData, data = combine mine (offered.carried version) := by
  rw [negotiate] at agreed
  split at agreed
  · split at agreed <;> cases agreed
  · rename_i version mine common
    have member : (version, mine) ∈ own.entries :=
      List.mem_reverse.mp (List.mem_of_find?_eq_some common)
    have proposed : (ProposedVersions.ofTable theirs).contains version = true := by
      rw [highestCommon] at common
      simpa using List.find?_some common
    rw [ProposedVersions.ofTable, VersionMap.contains_map] at proposed
    rw [ProposedVersions.params_ofTable] at agreed
    cases offered : theirs.get? version with
    | none =>
      rw [offered] at agreed
      cases agreed
    | some d =>
      rw [offered] at agreed
      simp only [Option.map_some] at agreed
      split at agreed
      · cases agreed
        exact ⟨proposed, mine, member, d, rfl⟩
      · cases agreed

theorem carried_eq_self {t : VersionTable} (kept : ∀ e ∈ t.entries, e.2.Survives e.1) :
    t.carried = t := by
  refine VersionMap.ext_entries ?_
  rw [carried, VersionMap.map]
  refine (List.map_congr_left fun e member => ?_).trans (List.map_id _)
  rw [VersionData.survives_iff.mp (kept e member)]
  rfl

end VersionTable

namespace Handshake

def across (m : Message) : Option Message := do
  (protocol.decode (← (protocol.encode m).toOption)).toOption

theorem across_eq {m : Message} (fits : m.Fits) : across m = some m.carried := by
  obtain ⟨b, written, read⟩ := conveys.delivered fits
  rw [across, written]
  change (protocol.decode b).toOption = _
  rw [read]
  rfl

namespace Party

/-- A client and a server with these tables, after the client's proposal and the server's
reply have gone over the wire. There is no result if a step cannot be made. -/
def converse (client server : VersionTable) : Option (Party × Party) := do
  let k := kind Unit
  let (offer, c) ← k.takeNext (new .client client)
  let (s, _) ← (k.consume (← across offer) (new .server server) ()).toOption
  let (reply, s) ← k.takeNext s
  let (c, _) ← (k.consume (← across reply) c ()).toOption
  return (c, s)

theorem converse_eq {client server : VersionTable} (few : client.size < UInt64.size)
    {reply : Message} (answered : answer server (.ofTable client) = reply) (fits : reply.Fits)
    (closes : State.confirm.move reply = some .done) :
    converse client server = some
      (({ new .client client with state := .done } : Party).received reply.carried,
        ({ new .server server with state := .done, reply := some reply } : Party).sent reply) := by
  have offered : across (.proposeVersions (.ofTable client)) =
      some (.proposeVersions (.ofTable client)) := across_eq ⟨client, few, rfl⟩
  have asked : (kind Unit).takeNext (new .client client) =
      some (.proposeVersions (.ofTable client), { new .client client with state := .confirm }) :=
    AgentKind.takeNext_of_moves rfl rfl rfl
  have heard : (kind Unit).consume (.proposeVersions (.ofTable client)) (new .server server) () =
      .ok ({ new .server server with state := .confirm, reply := some reply }, ()) := by
    have side : (kind Unit).role (new .server server) = .server := rfl
    have allowed : (kind Unit).protocol.move .propose (.proposeVersions (.ofTable client)) =
        some .confirm := rfl
    rw [← answered]
    exact AgentKind.consume_of_moves side rfl allowed ()
  have told : (kind Unit).takeNext
      { new .server server with state := .confirm, reply := some reply } =
      some (reply, ({ new .server server with state := .done, reply := some reply } : Party).sent
        reply) :=
    AgentKind.takeNext_of_moves rfl rfl closes
  have ended : (kind Unit).consume reply.carried { new .client client with state := .confirm } () =
      .ok (({ new .client client with state := .done } : Party).received reply.carried, ()) := by
    have side : (kind Unit).role { new .client client with state := .confirm } = .client := rfl
    exact AgentKind.consume_of_moves side rfl ((conveys.moved .confirm reply).trans closes) ()
  simp [converse, asked, offered, heard, told, across_eq fits, ended, Except.toOption]

end Party

def Outcome.Agrees (client server : VersionTable) : Outcome → Outcome → Prop
  | .accepted version data, .accepted version' data' =>
    version = version' ∧ client.contains version = true ∧ server.contains version = true ∧
      data = data'.carried version
  | .refused reason, .refused reason' => reason = reason'
  | .queried table, .queried table' => table' = server ∧ table = server.carried
  | _, _ => False

/-- Both sides are done, with outcomes that agree. If what the server's table holds is
told in full by its wire form, the outcomes are the same. The sizes of the tables are
machine words. -/
theorem converse_agrees {client server : VersionTable} (few : client.size < UInt64.size)
    (few' : server.size < UInt64.size) :
    ∃ c s o p, Party.converse client server = some (c, s) ∧ c.state = .done ∧ s.state = .done ∧
      c.outcome = some o ∧ s.outcome = some p ∧ Outcome.Agrees client server o p ∧
        ((∀ e ∈ server.entries, e.2.Survives e.1) → o = p) := by
  have fits : (Party.answer server (.ofTable client)).Fits := Party.fits_answer few'
  cases agreed : server.negotiate (.ofTable client) with
  | error reason =>
    have answered : Party.answer server (.ofTable client) = .refuse reason := by
      rw [Party.answer, agreed]
    rw [answered] at fits
    exact ⟨_, _, _, _, Party.converse_eq few answered fits rfl, rfl, rfl, rfl, rfl, rfl,
      fun _ => rfl⟩
  | ok chosen =>
    obtain ⟨version, data⟩ := chosen
    cases asks : data.query with
    | true =>
      have answered : Party.answer server (.ofTable client) = .queryReply server := by
        rw [Party.answer, agreed]
        exact if_pos asks
      rw [answered] at fits
      exact ⟨_, _, _, _, Party.converse_eq few answered fits rfl, rfl, rfl, rfl, rfl, ⟨rfl, rfl⟩,
        fun kept => congrArg Outcome.queried (VersionTable.carried_eq_self kept)⟩
    | false =>
      have answered : Party.answer server (.ofTable client) = .acceptVersion version data := by
        rw [Party.answer, agreed]
        exact if_neg (by simp [asks])
      rw [answered] at fits
      obtain ⟨proposed, mine, member, offered, rfl⟩ := VersionTable.mem_of_negotiate agreed
      refine ⟨_, _, .accepted version _, .accepted version _,
        Party.converse_eq few answered fits rfl, ?_, rfl, ?_, rfl,
        ⟨rfl, proposed, VersionMap.contains_of_mem member, rfl⟩, fun kept => ?_⟩
      · rw [Message.carried, Party.received]
        split <;> rfl
      · rw [Message.carried, Party.received]
        exact (congrArg Party.outcome (if_pos proposed)).trans rfl
      · rw [VersionData.carried_combine (VersionData.survives_iff.mp (kept _ member))]

def askingTable : VersionTable :=
  .ofList [(0x800e, ⟨7, false, 0, false⟩), (0x8010, ⟨7, false, 0, false⟩)]

def guardedTable : VersionTable :=
  .ofList [(0x8010, ⟨7, true, 1, false⟩), (0x8015, ⟨7, true, 0, false⟩)]

/-- The versions of a client do not carry that the server is guarded. -/
theorem converse_agrees_guarded :
    askingTable.size < UInt64.size ∧ guardedTable.size < UInt64.size ∧
      ((Party.converse askingTable guardedTable).map fun (c, s) => (c.negotiated, s.negotiated)) =
        some (some (0x8010, ⟨7, false, 0, false⟩), some (0x8010, ⟨7, true, 0, false⟩)) ∧
      ∃ c s o p, Party.converse askingTable guardedTable = some (c, s) ∧ c.state = .done ∧
        s.state = .done ∧ c.outcome = some o ∧ s.outcome = some p ∧
        Outcome.Agrees askingTable guardedTable o p ∧
          ((∀ e ∈ guardedTable.entries, e.2.Survives e.1) → o = p) :=
  have answered : Party.answer guardedTable (.ofTable askingTable) =
      .acceptVersion 0x8010 ⟨7, true, 0, false⟩ := rfl
  have concluded := Party.converse_eq (by decide) answered trivial rfl
  ⟨by decide, by decide, by rw [concluded]; rfl, converse_agrees (by decide) (by decide)⟩

end Handshake
end ChainRelay
