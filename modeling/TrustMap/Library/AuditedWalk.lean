import Mathlib.Data.List.Nodup
import TrustMap.Library.Checks

/-!
State machines with an audit trail that takes each change of state only once. Every step is given
the state it starts from; a step that changes the state adds one entry to the trail, and fails if
the entry is already there. A walk through the machine therefore succeeds exactly if it repeats
none of its changes and none of those in the trail.
-/

namespace AuditedWalk

open Checks

variable {σ ε ι S : Type}

/-- A machine with states `S` inside a store `σ`. The labels `ι` say where a step leads. -/
structure Machine (σ ε ι S : Type) where
  step : S → ι → σ → Except ε σ
  target : ι → S
  legal : S → ι → Prop
  ready : σ → Prop
  state : σ → S
  audit : σ → List (S × S)

/-- The changes of state along a walk. -/
def changes [DecidableEq S] (target : ι → S) : S → List ι → List (S × S)
  | _, [] => []
  | s, label :: labels =>
      if s = target label then changes target (target label) labels
      else (s, target label) :: changes target (target label) labels

namespace Machine

variable (m : Machine σ ε ι S)

/-- Perform the steps of a walk one after the other. -/
def walk : S → List ι → σ → Except ε σ
  | _, [], store => .ok store
  | s, label :: labels, store => do
      let next ← m.step s label store
      walk (m.target label) labels next

/-- Every step of the walk is legal. -/
def LegalWalk : S → List ι → Prop
  | _, [] => True
  | s, label :: labels => m.legal s label ∧ LegalWalk (m.target label) labels

/-- The state in which a walk ends. -/
def last (s : S) (labels : List ι) : S :=
  (labels.getLast?.map m.target).getD s

theorem last_cons (s : S) (label : ι) (labels : List ι) :
    m.last s (label :: labels) = m.last (m.target label) labels := by
  cases labels with
  | nil => rfl
  | cons next labels => simp [last, List.getLast?_cons]

/-- The steps of the machine are those of an audited machine. -/
structure Lawful : Prop where
  stay : ∀ {store : σ} {label : ι}, m.ready store → m.legal (m.state store) label →
    m.target label = m.state store → m.step (m.state store) label store = .ok store
  move : ∀ {store : σ} {label : ι}, m.ready store → m.legal (m.state store) label →
    m.state store ≠ m.target label → (m.state store, m.target label) ∉ m.audit store →
    ∃ next, m.step (m.state store) label store = .ok next ∧ m.ready next ∧
      m.state next = m.target label ∧
      m.audit next = m.audit store ++ [(m.state store, m.target label)]
  refuse : ∀ {store : σ} {label : ι}, m.ready store → m.legal (m.state store) label →
    m.state store ≠ m.target label → (m.state store, m.target label) ∈ m.audit store →
    ∃ e, m.step (m.state store) label store = .error e

variable {m} [DecidableEq S]

/-- A legal walk succeeds and is audited change by change if and only if it repeats no change. -/
theorem Lawful.walk_iff (hm : m.Lawful) {store : σ} {labels : List ι} (hReady : m.ready store)
    (hLegal : m.LegalWalk (m.state store) labels) :
    (∃ final, m.walk (m.state store) labels store = .ok final ∧
        m.state final = m.last (m.state store) labels ∧
        m.audit final = m.audit store ++ changes m.target (m.state store) labels) ↔
      (changes m.target (m.state store) labels).Nodup ∧
        ∀ change ∈ changes m.target (m.state store) labels, change ∉ m.audit store := by
  induction labels generalizing store with
  | nil => simp [walk, changes, last]
  | cons label labels ih =>
      obtain ⟨hStep, hRest⟩ := hLegal
      by_cases hSame : m.state store = m.target label
      · have hStay := hm.stay hReady hStep hSame.symm
        rw [← hSame] at hRest
        have hWalk : m.walk (m.state store) (label :: labels) store =
            m.walk (m.state store) labels store := by
          rw [walk, hStay, ← hSame]
          rfl
        have hChanges : changes m.target (m.state store) (label :: labels) =
            changes m.target (m.state store) labels := by
          rw [changes, if_pos hSame, ← hSame]
        rw [hWalk, hChanges, last_cons, ← hSame]
        exact ih hReady hRest
      · have hChanges : changes m.target (m.state store) (label :: labels) =
            (m.state store, m.target label) :: changes m.target (m.target label) labels := by
          rw [changes, if_neg hSame]
        rw [hChanges, last_cons, List.nodup_cons, List.forall_mem_cons]
        by_cases hTaken : (m.state store, m.target label) ∈ m.audit store
        · obtain ⟨e, hError⟩ := hm.refuse hReady hStep hSame hTaken
          have hWalk : m.walk (m.state store) (label :: labels) store = .error e := by
            rw [walk, hError]
            rfl
          simp [hWalk, hTaken]
        · obtain ⟨next, hNext, hReady', hState, hAudit⟩ := hm.move hReady hStep hSame hTaken
          have hWalk : m.walk (m.state store) (label :: labels) store =
              m.walk (m.target label) labels next := by
            rw [walk, hNext]
            rfl
          have hTail := ih hReady' (hState ▸ hRest)
          rw [hState, hAudit] at hTail
          simp only [List.append_assoc, List.singleton_append, List.mem_append,
            List.mem_singleton, not_or] at hTail
          rw [hWalk, hTail]
          constructor
          · rintro ⟨hNodup, hFresh⟩
            refine ⟨⟨fun hMem => (hFresh _ hMem).2 rfl, hNodup⟩, hTaken, ?_⟩
            exact fun change hMem => (hFresh change hMem).1
          · rintro ⟨⟨hNew, hNodup⟩, -, hFresh⟩
            refine ⟨hNodup, fun change hMem => ⟨hFresh change hMem, ?_⟩⟩
            rintro rfl
            exact hNew hMem

end Machine

end AuditedWalk
