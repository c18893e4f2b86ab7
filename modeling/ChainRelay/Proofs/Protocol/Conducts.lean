import ChainRelay.Proofs.ChainSync.Replies
import ChainRelay.Proofs.Protocol.History
import ChainRelay.Proofs.Protocol.Pairings

/-! The agents, each with the requests that it understands and the queue that its messages
wait in. Their states move with messages alone. What is put in a queue goes to its end, and
what is sent is taken from its front. -/
namespace ChainRelay

variable {σ : Type}

namespace Conduct

variable {A State Message Event : Type}

/-- The state is moved by messages alone, and listeners are kept apart from all else. -/
structure Plain (c : Conduct σ A State Message Event) : Prop where
  state_sent : ∀ m a, c.kind.state (c.kind.sent m a) = c.kind.state a
  state_received : ∀ m a w, c.kind.state (c.kind.received m a w).1 = c.kind.state a
  state_ask : ∀ r a w, c.kind.state (c.ask r a w).1 = c.kind.state a
  state_withState : ∀ s a, c.kind.state (c.kind.withState s a) = s
  restore : ∀ l a, c.kind.withListeners (c.kind.listeners a) (c.kind.withListeners l a) = a
  state_withListeners : ∀ l a, c.kind.state (c.kind.withListeners l a) = c.kind.state a
  role_withListeners : ∀ l a, c.kind.role (c.kind.withListeners l a) = c.kind.role a
  number_withListeners : ∀ l a, c.kind.number (c.kind.withListeners l a) = c.kind.number a
  produce_withListeners : ∀ l a, c.kind.produce (c.kind.withListeners l a) = c.kind.produce a

theorem Plain.state_commit {c : Conduct σ A State Message Event} (plain : c.Plain) (m : Message)
    (next : State) (a : A) : c.kind.state (c.kind.commit m next a) = next := by
  rw [AgentKind.commit, plain.state_sent, plain.state_withState]

structure InLine (c : Conduct σ A State Message Event) : Prop where
  queue_ask : ∀ r a w, c.queue a <+: c.queue (c.ask r a w).1
  queue_received : ∀ m a w, c.queue a <+: c.queue (c.kind.received m a w).1
  queue_commit : ∀ {a m} s, c.kind.produce a = some m →
    c.queue a = [m].filter c.waits ++ c.queue (c.kind.commit m s a)
  queue_withState : ∀ s a, c.queue (c.kind.withState s a) = c.queue a
  queue_withListeners : ∀ l a, c.queue (c.kind.withListeners l a) = c.queue a

end Conduct

namespace KeepAlive

def Client.conduct (σ : Type) : Conduct σ Client State Message Event where
  kind := Client.kind σ
  ask r c w := (r.ofKeepAlive c, w)
  queue c := c.queued.map .ping
  waits
    | .ping _ => true
    | _ => false

theorem Client.plain : (Client.conduct σ).Plain where
  state_sent := Client.lawful.state_sent
  state_received := Client.lawful.state_received
  state_ask r _ _ := by cases r <;> rfl
  state_withState _ _ := rfl
  restore _ _ := rfl
  state_withListeners _ _ := rfl
  role_withListeners _ _ := rfl
  number_withListeners _ _ := rfl
  produce_withListeners _ _ := rfl

theorem Client.inLine : (Client.conduct σ).InLine where
  queue_ask r c _ := by
    cases r with
    | ping cookie =>
      have asked : c.queued.map Message.ping ++ [.ping cookie] = (c.queued ++ [cookie]).map .ping := by
        simp
      exact ⟨_, asked⟩
    | _ => exact List.prefix_rfl
  queue_received m c _ := by
    cases m with
    | response cookie =>
      simp only [conduct, kind, received]
      split <;> exact List.prefix_rfl
    | _ => exact List.prefix_rfl
  queue_commit {c m} _ made := by
    simp only [conduct, kind, produce] at made ⊢
    cases waiting : c.queued with
    | cons cookie rest =>
      simp only [waiting, Option.some.injEq] at made
      subst made
      simp [AgentKind.commit, sent, waiting]
    | nil =>
      simp only [waiting, Option.ite_none_right_eq_some, Option.some.injEq] at made
      obtain ⟨-, rfl⟩ := made
      simp [AgentKind.commit, sent, waiting]
  queue_withState _ _ := rfl
  queue_withListeners _ _ := rfl

def Server.conduct (σ : Type) : Conduct σ Server State Message Empty where
  kind := Server.kind σ
  ask _ s w := (s, w)
  queue s := s.replies
  waits _ := true

theorem Server.plain : (Server.conduct σ).Plain where
  state_sent _ _ := rfl
  state_received := Server.lawful.state_received
  state_ask _ _ _ := rfl
  state_withState _ _ := rfl
  restore _ _ := rfl
  state_withListeners _ _ := rfl
  role_withListeners _ _ := rfl
  number_withListeners _ _ := rfl
  produce_withListeners _ _ := rfl

theorem Server.inLine : (Server.conduct σ).InLine where
  queue_ask _ _ _ := List.prefix_rfl
  queue_received m s _ := by
    cases m with
    | ping cookie => exact List.prefix_append s.replies [.response cookie]
    | _ => exact List.prefix_rfl
  queue_commit {s m} _ made := by
    obtain ⟨rest, waiting⟩ := List.head?_eq_some_iff.mp made
    simp [AgentKind.commit, conduct, kind, waiting]
  queue_withState _ _ := rfl
  queue_withListeners _ _ := rfl

end KeepAlive

namespace BlockFetch

def Client.conduct (σ : Type) : Conduct σ Client State Message Event where
  kind := Client.kind σ
  ask r c w := (r.ofBlockFetch c, w)
  queue c := c.queued.map .requestRange
  waits
    | .requestRange _ => true
    | _ => false

theorem Client.plain : (Client.conduct σ).Plain where
  state_sent := Client.lawful.state_sent
  state_received := Client.lawful.state_received
  state_ask r _ _ := by cases r <;> rfl
  state_withState _ _ := rfl
  restore _ _ := rfl
  state_withListeners _ _ := rfl
  role_withListeners _ _ := rfl
  number_withListeners _ _ := rfl
  produce_withListeners _ _ := rfl

theorem Client.queued_received (m : Message) (c : Client) : (c.received m).queued = c.queued := by
  unfold received
  split
  · rfl
  · cases m <;> rfl

theorem Client.inLine : (Client.conduct σ).InLine where
  queue_ask r c _ := by
    cases r with
    | fetch range =>
      have asked : c.queued.map Message.requestRange ++ [.requestRange range] =
          (c.queued ++ [range]).map .requestRange := by
        simp
      exact ⟨_, asked⟩
    | _ => exact List.prefix_rfl
  queue_received m c _ := by
    simp only [conduct, kind, queued_received]
    exact List.prefix_rfl
  queue_commit {c m} _ made := by
    simp only [conduct, kind, produce] at made ⊢
    cases waiting : c.queued with
    | cons range rest =>
      simp only [waiting, Option.some.injEq] at made
      subst made
      simp [AgentKind.commit, sent, waiting]
    | nil =>
      simp only [waiting, Option.ite_none_right_eq_some, Option.some.injEq] at made
      obtain ⟨-, rfl⟩ := made
      simp [AgentKind.commit, sent, waiting]
  queue_withState _ _ := rfl
  queue_withListeners _ _ := rfl

def Server.conduct (chain : ChainSource σ) : Conduct σ Server State Message Empty where
  kind := Server.kind chain
  ask _ s w := (s, w)
  queue s := s.replies
  waits _ := true

theorem Server.plain {chain : ChainSource σ} : (Server.conduct chain).Plain where
  state_sent _ _ := rfl
  state_received m _ _ := by cases m <;> rfl
  state_ask _ _ _ := rfl
  state_withState _ _ := rfl
  restore _ _ := rfl
  state_withListeners _ _ := rfl
  role_withListeners _ _ := rfl
  number_withListeners _ _ := rfl
  produce_withListeners _ _ := rfl

theorem Server.inLine {chain : ChainSource σ} : (Server.conduct chain).InLine where
  queue_ask _ _ _ := List.prefix_rfl
  queue_received m s _ := by
    cases m with
    | requestRange range => exact List.prefix_append s.replies _
    | _ => exact List.prefix_rfl
  queue_commit {s m} _ made := by
    obtain ⟨rest, waiting⟩ := List.head?_eq_some_iff.mp made
    simp [AgentKind.commit, conduct, kind, waiting]
  queue_withState _ _ := rfl
  queue_withListeners _ _ := rfl

end BlockFetch

namespace ChainSync

def Client.conduct (σ : Type) : Conduct σ Client State Message Event where
  kind := Client.kind σ
  ask r c w := (r.ofChainSync c, w)
  queue _ := []
  waits _ := false

theorem Client.plain : (Client.conduct σ).Plain where
  state_sent _ _ := rfl
  state_received := Client.lawful.state_received
  state_ask r _ _ := by cases r <;> rfl
  state_withState _ _ := rfl
  restore _ _ := rfl
  state_withListeners _ _ := rfl
  role_withListeners _ _ := rfl
  number_withListeners _ _ := rfl
  produce_withListeners _ _ := rfl

def Server.conduct (chain : ChainSource σ) : Conduct σ Server State Message Empty where
  kind := Server.kind chain
  ask := Request.ofChainServer chain
  queue s := s.replies
  waits _ := true

theorem Server.plain {chain : ChainSource σ} : (Server.conduct chain).Plain where
  state_sent _ _ := rfl
  state_received m s w := (received_adds chain m s w).1
  state_ask r s w := by
    cases r with
    | notifyNewBlock => exact (notifyNewBlock_adds chain s w).1
    | _ => rfl
  state_withState _ _ := rfl
  restore _ _ := rfl
  state_withListeners _ _ := rfl
  role_withListeners _ _ := rfl
  number_withListeners _ _ := rfl
  produce_withListeners _ _ := rfl

theorem Server.head?_of_produce {s : Server} {m : Message} (made : s.produce = some m) :
    s.replies.head? = some m := by
  obtain ⟨first, head, rest⟩ := Option.bind_eq_some_iff.mp made
  obtain ⟨_, -, same⟩ := Option.bind_eq_some_iff.mp rest
  cases same
  exact head

theorem Server.inLine {chain : ChainSource σ} : (Server.conduct chain).InLine where
  queue_ask r s w := by
    cases r with
    | notifyNewBlock => exact (notifyNewBlock_adds chain s w).2
    | _ => exact List.prefix_rfl
  queue_received m s w := (received_adds chain m s w).2
  queue_commit {s m} _ made := by
    obtain ⟨rest, waiting⟩ := List.head?_eq_some_iff.mp (head?_of_produce made)
    simp [AgentKind.commit, conduct, kind, waiting]
  queue_withState _ _ := rfl
  queue_withListeners _ _ := rfl

end ChainSync

namespace Handshake

def Party.conduct (σ : Type) : Conduct σ Party State Message Event where
  kind := Party.kind σ
  ask _ p w := (p, w)
  queue p := p.reply.toList
  waits _ := true

theorem Party.plain : (Party.conduct σ).Plain where
  state_sent := (Party.lawful .client).state_sent
  state_received := (Party.lawful .client).state_received
  state_ask _ _ _ := rfl
  state_withState _ _ := rfl
  restore _ _ := rfl
  state_withListeners _ _ := rfl
  role_withListeners _ _ := rfl
  number_withListeners _ _ := rfl
  produce_withListeners _ _ := rfl

end Handshake
end ChainRelay
