import ChainRelay.Proofs.Protocol.History
import Mathlib.Data.List.DropRight

/-! Runs of an agent whose every note keeps how things stood before the step that it was made
at. What may be asked of a step then is a condition on the notes of it, and what was answered
at any moment can be told from them. -/
namespace ChainRelay

variable {σ A State Message Event : Type}

structure Entry (σ A Message Event : Type) where
  agent : A
  world : σ
  note : Note Message Event

def Note.isReset : Note Message Event → Bool
  | reset => true
  | _ => false

theorem Note.queued_mem {notes : List (Note Message Event)} {m : Message}
    (member : m ∈ notes.filterMap queued?) : .queued m ∈ notes := by
  obtain ⟨n, there, same⟩ := List.mem_filterMap.mp member
  cases n with
  | queued m =>
    cases same
    exact there
  | _ => cases same

namespace Conduct

def entries (a : A) (w : σ) (notes : List (Note Message Event)) :
    List (Entry σ A Message Event) :=
  notes.map (Entry.mk a w)

variable (c : Conduct σ A State Message Event)

/-- A run, with all that has been noted of it, oldest first. -/
inductive Recorded (start : Handle A × σ) : List (Entry σ A Message Event) → Handle A × σ → Prop
  | nil : Recorded start [] start
  | snoc {log : List (Entry σ A Message Event)} {notes : List (Note Message Event)}
      {s t : Handle A × σ} (before : Recorded start log s) (step : c.Step s notes t) :
      Recorded start (log ++ entries s.1.agent s.2 notes) t

/-- What has been noted since the agent was made or reset. -/
def sinceReset (log : List (Entry σ A Message Event)) : List (Entry σ A Message Event) :=
  log.rtakeWhile fun e => !e.note.isReset

def spoken (log : List (Entry σ A Message Event)) : List Message :=
  (sinceReset log).filterMap fun e => e.note.queued?

variable {c} {log : List (Entry σ A Message Event)} {notes : List (Note Message Event)}
  {s t : Handle A × σ} {a : A} {w : σ}

@[simp]
theorem map_note_entries : (entries a w notes).map (·.note) = notes := by
  rw [entries, List.map_map]
  exact List.map_id _

@[simp]
theorem entries_nil : entries a w ([] : List (Note Message Event)) = [] := rfl

@[simp]
theorem entries_cons (n : Note Message Event) :
    entries a w (n :: notes) = ⟨a, w, n⟩ :: entries a w notes := rfl

theorem Recorded.run (recorded : c.Recorded s log t) : c.Run s (log.map (·.note)) t := by
  induction recorded with
  | nil => exact .nil
  | snoc _ step ih =>
    rw [List.map_append, map_note_entries]
    exact ih.snoc step

theorem Run.recorded {notes : List (Note Message Event)} (run : c.Run s notes t) :
    ∃ log, c.Recorded s log t ∧ log.map (·.note) = notes := by
  induction run with
  | nil => exact ⟨[], .nil, rfl⟩
  | snoc _ step ih =>
    obtain ⟨log, recorded, same⟩ := ih
    exact ⟨_, recorded.snoc step, by rw [List.map_append, map_note_entries, same]⟩

/-- Induction on a run of which all notes are `Fair`. -/
theorem Recorded.keeps {I : List (Entry σ A Message Event) → A → Prop}
    {Fair : Entry σ A Message Event → Prop} (recorded : c.Recorded s log t)
    (fair : ∀ e ∈ log, Fair e) (start : I [] s.1.agent)
    (act : ∀ {log a w notes r}, I log a → c.Act a w notes r →
      (∀ e ∈ entries a w notes, Fair e) → I (log ++ entries a w notes) r.1) :
    I log t.1.agent := by
  induction recorded with
  | nil => exact start
  | snoc _ step ih =>
    have before := ih fun e member => fair e (List.mem_append_left _ member)
    exact act before step.act fun e member => fair e (List.mem_append_right _ member)

/-! ### Since a reset -/

theorem sinceReset_append (on : ∀ n ∈ notes, n.isReset = false) :
    sinceReset (log ++ entries a w notes) = sinceReset log ++ entries a w notes := by
  have back : ∀ e ∈ (entries a w notes).reverse, (!e.note.isReset) = true := by
    intro e member
    obtain ⟨n, there, rfl⟩ := List.mem_map.mp (List.mem_reverse.mp member)
    simp [on n there]
  simp [sinceReset, List.rtakeWhile, List.takeWhile_append_of_pos back]

@[simp]
theorem sinceReset_reset : sinceReset (log ++ entries a w [.reset]) = [] := by
  simp [sinceReset, List.rtakeWhile, Note.isReset]

@[simp]
theorem spoken_reset : spoken (log ++ entries a w [.reset]) = [] := by
  rw [spoken, sinceReset_reset]
  rfl

theorem spoken_append (on : ∀ n ∈ notes, n.isReset = false) :
    spoken (log ++ entries a w notes) = spoken log ++ notes.filterMap Note.queued? := by
  rw [spoken, sinceReset_append on, List.filterMap_append, entries, List.filterMap_map]
  rfl

/-! ### Runs that are worked out -/

inductive Deed (σ Message : Type) where
  | take (m : Message)
  | ask (r : Request)
  | draw
  | change (w : σ)

variable (c) in
/-- A message that is refused changes nothing, and when none is ready none is drawn. -/
def befall (s : Handle A × σ) : Deed σ Message → List (Note Message Event) × Handle A × σ
  | .take m =>
    match c.kind.consume m s.1.agent s.2 with
    | .ok (a, w) => (.taken m :: c.grown s.1.agent a, { s.1 with agent := a }, w)
    | .error _ => ([], s)
  | .ask r =>
    (.asked r :: c.grown s.1.agent (c.ask r s.1.agent s.2).1,
      { s.1 with agent := (c.ask r s.1.agent s.2).1 }, (c.ask r s.1.agent s.2).2)
  | .draw =>
    match c.kind.takeNext s.1.agent with
    | some (m, a) => ([.given m none], { s.1 with agent := a }, s.2)
    | none => ([], s)
  | .change w => ([], s.1, w)

theorem step_befall (d : Deed σ Message) (s : Handle A × σ) :
    c.Step s (c.befall s d).1 (c.befall s d).2 := by
  obtain ⟨h, w⟩ := s
  cases d with
  | take m =>
    simp only [befall]
    split
    · rename_i accepted
      exact .take accepted
    · rename_i refused
      exact .refuse refused
  | ask r => exact .ask r
  | draw =>
    simp only [befall]
    split
    · rename_i taken
      exact .draw taken
    · exact .change w
  | change w' => exact .change w'

variable (c) in
def follow (s : Handle A × σ) : List (Deed σ Message) →
    List (Entry σ A Message Event) × Handle A × σ
  | [] => ([], s)
  | d :: later =>
    let (notes, t) := c.befall s d
    let (log, u) := follow t later
    (entries s.1.agent s.2 notes ++ log, u)

theorem Recorded.follow {start : Handle A × σ} (recorded : c.Recorded start log s)
    (script : List (Deed σ Message)) :
    c.Recorded start (log ++ (c.follow s script).1) (c.follow s script).2 := by
  induction script generalizing log s with
  | nil => simpa [Conduct.follow] using recorded
  | cons d later ih =>
    have after := ih (recorded.snoc (step_befall d s))
    rw [List.append_assoc] at after
    exact after

theorem recorded_follow (s : Handle A × σ) (script : List (Deed σ Message)) :
    c.Recorded s (c.follow s script).1 (c.follow s script).2 := by
  have followed := Recorded.nil.follow (c := c) (s := s) script
  rwa [List.nil_append] at followed

end Conduct
end ChainRelay
