import ChainRelay.Proofs.BlockFetch.Server
import ChainRelay.Proofs.ChainSync.Client
import ChainRelay.Proofs.ChainSync.Server
import ChainRelay.Proofs.Handshake.Negotiation
import ChainRelay.Proofs.KeepAlive.Codec
import ChainRelay.Proofs.Protocol.Lockstep

/-! The four mini-protocols in lock step. Each agent is shown to keep its state apart
from its bookkeeping, and to make only messages that can be written. -/
namespace ChainRelay

variable {σ : Type}

namespace KeepAlive

theorem Client.lawful : (Client.kind σ).Lawful protocol .client (fun _ => True) fun _ => True where
  protocol_eq := rfl
  role_eq _ := rfl
  state_withState _ _ := rfl
  state_sent m c := by cases m <;> rfl
  state_received m c w := by
    cases m with
    | response cookie =>
      simp only [kind, received]
      split <;> rfl
    | _ => rfl
  state_withListeners _ _ := rfl
  sane_withState _ _ := trivial
  sane_sent _ _ := trivial
  sane_received _ _ _ := trivial
  sane_withListeners _ _ := trivial
  fits_produce _ _ := trivial

theorem Server.lawful : (Server.kind σ).Lawful protocol .server (fun _ => True) fun _ => True where
  protocol_eq := rfl
  role_eq _ := rfl
  state_withState _ _ := rfl
  state_sent _ _ := rfl
  state_received m _ _ := by cases m <;> rfl
  state_withListeners _ _ := rfl
  sane_withState _ _ := trivial
  sane_sent _ _ := trivial
  sane_received _ _ _ := trivial
  sane_withListeners _ _ := trivial
  fits_produce _ _ := trivial

def pairing (σ : Type) : Pairing σ State Message Client Server Event Empty where
  client := Client.kind σ
  server := Server.kind σ
  ask r c w := (r.ofKeepAlive c, w)
  tell _ s w := (s, w)

theorem matched :
    (pairing σ).Matched protocol (fun _ => True) id (fun _ => True) fun _ => True where
  client := Client.lawful
  server := Server.lawful
  conveys := conveys
  ask {r c} _ _ _ := ⟨trivial, by cases r <;> rfl⟩
  tell _ _ _ := ⟨trivial, rfl⟩

end KeepAlive

namespace BlockFetch

theorem Client.lawful : (Client.kind σ).Lawful protocol .client Message.Fits fun _ => True where
  protocol_eq := rfl
  role_eq _ := rfl
  state_withState _ _ := rfl
  state_sent m c := by cases m <;> rfl
  state_received m c w := by
    simp only [kind, received]
    split
    · rfl
    · cases m <;> rfl
  state_withListeners _ _ := rfl
  sane_withState _ _ := trivial
  sane_sent _ _ := trivial
  sane_received _ _ _ := trivial
  sane_withListeners _ _ := trivial
  fits_produce {c m} _ made := by
    simp only [kind, produce] at made
    split at made
    · cases made
      trivial
    · split at made
      · cases made
        trivial
      · cases made

def Server.Sane (s : Server) : Prop := ∀ m ∈ s.replies, m.Fits

theorem Server.lawful {chain : ChainSource σ} (bounded : chain.Bounded) :
    (Server.kind chain).Lawful protocol .server Message.Fits Server.Sane where
  protocol_eq := rfl
  role_eq _ := rfl
  state_withState _ _ := rfl
  state_sent _ _ := rfl
  state_received m s w := by cases m <;> rfl
  state_withListeners _ _ := rfl
  sane_withState _ sane := sane
  sane_sent _ sane m member := sane m (List.mem_of_mem_tail member)
  sane_received {m s} w _ sane := by
    cases m with
    | requestRange range =>
      intro m member
      rcases List.mem_append.mp member with old | new
      · exact sane m old
      · exact fits_answer bounded rfl m new
    | _ => exact sane
  sane_withListeners _ sane := sane
  fits_produce sane made := sane _ (List.mem_of_mem_head? made)

def pairing (chain : ChainSource σ) : Pairing σ State Message Client Server Event Empty where
  client := Client.kind σ
  server := Server.kind chain
  ask r c w := (r.ofBlockFetch c, w)
  tell _ s w := (s, w)

theorem matched {chain : ChainSource σ} (bounded : chain.Bounded) :
    (pairing chain).Matched protocol Message.Fits Message.carried (fun _ => True) Server.Sane where
  client := Client.lawful
  server := Server.lawful bounded
  conveys := conveys
  ask {r c} _ _ _ := ⟨trivial, by cases r <;> rfl⟩
  tell _ _ sane := ⟨sane, rfl⟩

end BlockFetch

namespace ChainSync

def Client.Sane (c : Client) : Prop := c.candidates.length < UInt64.size

theorem Client.lawful : (Client.kind σ).Lawful protocol .client Message.Fits Client.Sane where
  protocol_eq := rfl
  role_eq _ := rfl
  state_withState _ _ := rfl
  state_sent _ _ := rfl
  state_received m c _ := (c.received_frame m).1
  state_withListeners _ _ := rfl
  sane_withState _ sane := sane
  sane_sent _ sane := sane
  sane_received {m c} _ _ sane := by
    have one : 1 < UInt64.size := by decide
    change (c.received m).candidates.length < UInt64.size
    rcases (c.received_frame m).2 with same | short
    · rw [same]
      exact sane
    · omega
  sane_withListeners _ sane := sane
  fits_produce {c m} sane made := by
    simp only [kind, produce] at made
    split at made
    · cases made
      trivial
    · split at made
      · cases made
        trivial
      · split at made
        · cases made
        · cases made
          exact sane

def Server.Sane (s : Server) : Prop := ∀ m ∈ s.replies, m.Fits

theorem Server.lawful {chain : ChainSource σ} (bounded : chain.Bounded) :
    (Server.kind chain).Lawful protocol .server Message.Fits Server.Sane where
  protocol_eq := rfl
  role_eq _ := rfl
  state_withState _ _ := rfl
  state_sent _ _ := rfl
  state_received m s w := by
    obtain ⟨_, _, _, _, -, frame⟩ := received_frame bounded m s w
    change (received chain m s w).1.state = s.state
    rw [frame]
  state_withListeners _ _ := rfl
  sane_withState _ sane := sane
  sane_sent _ sane m member := sane m (List.mem_of_mem_tail member)
  sane_received {m s} w _ sane := by
    obtain ⟨_, _, _, answer, fit, frame⟩ := received_frame bounded m s w
    change Sane (received chain m s w).1
    rw [frame]
    intro m member
    exact (List.mem_append.mp member).elim (sane m) (fit m)
  sane_withListeners _ sane := sane
  fits_produce {s m} sane made := by
    obtain ⟨first, head, rest⟩ := Option.bind_eq_some_iff.mp made
    obtain ⟨_, -, same⟩ := Option.bind_eq_some_iff.mp rest
    cases same
    exact sane _ (List.mem_of_mem_head? head)

def pairing (chain : ChainSource σ) : Pairing σ State Message Client Server Event Empty where
  client := Client.kind σ
  server := Server.kind chain
  ask r c w := (r.ofChainSync c, w)
  tell := Request.ofChainServer chain

theorem matched {chain : ChainSource σ} (bounded : chain.Bounded) :
    (pairing chain).Matched protocol Message.Fits Message.carried Client.Sane Server.Sane where
  client := Client.lawful
  server := Server.lawful bounded
  conveys := conveys
  ask {r c} _ fits sane := by
    have one : 1 < UInt64.size := by decide
    cases r with
    | setCandidates points => exact ⟨fits, rfl⟩
    | resetTo p => exact ⟨one, rfl⟩
    | _ => exact ⟨sane, rfl⟩
  tell {r s} w _ sane := by
    cases r with
    | notifyNewBlock =>
      obtain ⟨_, _, _, answer, fit, frame⟩ := Server.notifyNewBlock_frame bounded s w
      change Server.Sane (s.notifyNewBlock chain w).1 ∧ (s.notifyNewBlock chain w).1.state = s.state
      rw [frame]
      exact ⟨fun m member => (List.mem_append.mp member).elim (sane m) (fit m), rfl⟩
    | _ => exact ⟨sane, rfl⟩

end ChainSync

namespace Handshake

structure Party.Sane (role : Role) (p : Party) : Prop where
  side : p.role = role
  few : p.versions.size < UInt64.size
  reply : ∀ m ∈ p.reply, m.Fits

theorem Party.sane_finish {role : Role} {p : Party} (outcome : Outcome) (sane : p.Sane role) :
    (p.finish outcome).Sane role := ⟨sane.side, sane.few, sane.reply⟩

theorem Party.lawful (role : Role) :
    (Party.kind σ).Lawful protocol role Message.Fits (Party.Sane role) where
  protocol_eq := rfl
  role_eq sane := sane.side
  state_withState _ _ := rfl
  state_sent m p := by
    simp only [kind, sent]
    split
    · rfl
    · split <;> rfl
  state_received m p w := by
    cases m with
    | acceptVersion version data =>
      simp only [kind, received]
      split <;> rfl
    | _ => rfl
  state_withListeners _ _ := rfl
  sane_withState _ sane := ⟨sane.side, sane.few, sane.reply⟩
  sane_sent {p} m sane := by
    have cleared : ({ p with reply := none } : Party).Sane role :=
      ⟨sane.side, sane.few, by simp⟩
    simp only [kind, sent]
    split
    · exact sane
    · split
      · exact sane_finish _ cleared
      · exact cleared
  sane_received {m p} w fits sane := by
    cases m with
    | proposeVersions proposed =>
      obtain ⟨table, -, rfl⟩ := fits
      refine ⟨sane.side, sane.few, fun m member => ?_⟩
      cases member
      exact fits_answer sane.few
    | acceptVersion version data =>
      simp only [kind, received]
      split
      · exact sane_finish _ sane
      · exact sane_finish _ sane
    | refuse reason => exact sane_finish _ sane
    | queryReply table => exact sane_finish _ sane
  sane_withListeners _ sane := ⟨sane.side, sane.few, sane.reply⟩
  fits_produce {p m} sane made := by
    simp only [kind, produce] at made
    split at made
    · cases made
      exact ⟨p.versions, sane.few, rfl⟩
    · exact sane.reply m made

def pairing (σ : Type) : Pairing σ State Message Party Party Event Event where
  client := Party.kind σ
  server := Party.kind σ
  ask _ p w := (p, w)
  tell _ p w := (p, w)

theorem matched : (pairing σ).Matched protocol Message.Fits Message.carried (Party.Sane .client)
    (Party.Sane .server) where
  client := Party.lawful .client
  server := Party.lawful .server
  conveys := conveys
  ask _ _ sane := ⟨sane, rfl⟩
  tell _ _ sane := ⟨sane, rfl⟩

end Handshake

/-! ### Agents that begin -/

structure Handshake.Party.Begins (role : Role) (p : Party) : Prop where
  side : p.role = role
  state : p.state = .propose
  reply : p.reply = none
  few : p.versions.size < UInt64.size

structure ChainSync.Client.Begins (c : Client) : Prop where
  state : c.state = .idle
  few : c.candidates.length < UInt64.size

structure ChainSync.Server.Begins (s : Server) : Prop where
  state : s.state = .idle
  replies : s.replies = []

structure BlockFetch.Server.Begins (s : Server) : Prop where
  state : s.state = .idle
  replies : s.replies = []

structure KeepAlive.Server.Begins (s : Server) : Prop where
  state : s.state = .client
  replies : s.replies = []

namespace Exchange

/-- Whatever happens in whatever order, every mini-protocol stays in lock step. The
source may answer lookups with anything and may turn into any other. -/
theorem lockStep_run {chain : ChainSource σ} (bounded : chain.Bounded) {moves : List (Move σ)}
    (fit : ∀ m ∈ moves, m.Fits) (w : σ) :
    (∀ c s, c.Begins .client → s.Begins .server →
      LockStep (Handshake.pairing σ) (run (Handshake.pairing σ) (start c s w) moves)) ∧
    (∀ c s, c.Begins → s.Begins →
      LockStep (ChainSync.pairing chain) (run (ChainSync.pairing chain) (start c s w) moves)) ∧
    (∀ c s, c.state = .idle → s.Begins →
      LockStep (BlockFetch.pairing chain) (run (BlockFetch.pairing chain) (start c s w) moves)) ∧
    ∀ c s, c.state = .client → s.Begins →
      LockStep (KeepAlive.pairing σ) (run (KeepAlive.pairing σ) (start c s w) moves) := by
  refine ⟨fun c s client server => ?_, fun c s client server => ?_, fun c s client server => ?_,
    fun c s client server => ?_⟩
  · have first : c.Sane .client := ⟨client.side, client.few, by simp [client.reply]⟩
    have second : s.Sane .server := ⟨server.side, server.few, by simp [server.reply]⟩
    have same : c.state = s.state := client.state.trans server.state.symm
    exact lockStep_run_start Handshake.matched first second same fit w
  · have second : s.Sane := by simp [ChainSync.Server.Sane, server.replies]
    have same : c.state = s.state := client.state.trans server.state.symm
    exact lockStep_run_start (ChainSync.matched bounded) client.few second same fit w
  · have second : s.Sane := by simp [BlockFetch.Server.Sane, server.replies]
    have same : c.state = s.state := client.trans server.state.symm
    exact lockStep_run_start (BlockFetch.matched bounded) trivial second same fit w
  · have same : c.state = s.state := client.trans server.state.symm
    exact lockStep_run_start KeepAlive.matched trivial trivial same fit w

def shortChain : ChainSource Bool where
  hasPoint p := do return (← get) && p.hash == some .zero
  nextAfter p := do return if (← get) && p.isOrigin then some ⟨20, some .zero⟩ else none
  header _ := return none
  body _ := do return if ← get then some [0x80] else none
  tip := do return if ← get then some ⟨⟨20, some .zero⟩, 1⟩ else none

/-- A client that is bound late, and a chain that has lost its block when the client asks for
it, and gets it back. The reply that none is there and the block itself are both under way. -/
theorem lockStep_shortChain :
    shortChain.Bounded ∧
      let moves : List (Move Bool) := [.act .client (.request (.setCandidates [.origin])),
        .act .server (.bind ⟨0, .responder, true⟩), .act .client (.bind ⟨0, .initiator, true⟩),
        .deliver .server, .deliver .client, .deliver .server, .deliver .client, .change false,
        .deliver .server, .change true, .act .server (.request .notifyNewBlock)]
      let ended := run (ChainSync.pairing shortChain)
        (start (.new [] .blocks) (.new .blocks) true) moves
      (∀ m ∈ moves, m.Fits) ∧ ended.toServer = [] ∧ ended.toClient.length = 2 ∧
        LockStep (ChainSync.pairing shortChain) ended := by
  have bounded : shortChain.Bounded := by
    constructor
    · intro hash w b w' answered
      cases answered
    · intro hash w b w' answered
      cases w <;> cases answered
      decide
  refine ⟨bounded, ?_⟩
  intro moves ended
  have fit : ∀ m ∈ moves, m.Fits := by
    refine List.forall_mem_cons.mpr ⟨(by decide : 1 < UInt64.size), ?_⟩
    simp [Move.Fits, Action.Fits, Request.Fits]
  exact ⟨fit, by decide +kernel, by decide +kernel,
    (lockStep_run bounded fit true).2.1 (.new [] .blocks) (.new .blocks)
      ⟨rfl, by decide⟩ ⟨rfl, rfl⟩⟩

end Exchange
end ChainRelay
