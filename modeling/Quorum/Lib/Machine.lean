/-
Deterministic machines with inputs and outputs: a run is a list of inputs, its outputs are the
trace. A condition on a run is a condition on each of its steps (`EveryStep`), which sees the
trace so far, the state before the step and the input. Invariants along runs are proved once here:
`EveryStep.inv` for the state a run ends in, `EveryStep.imp` for its steps, `everyPrefix_iff` for
properties with an exact condition. `Leads` says that a run with a given end exists.
-/
import Mathlib.Data.List.Induction
import Mathlib.Data.Nat.Init

namespace Quorum

/-- A machine: one input moves the state and emits outputs. -/
structure Machine (S I O : Type) where
  step : S → I → S × List O

namespace Machine

variable {S I O : Type} (M : Machine S I O)

/-- The state after a run. -/
def exec (s : S) (is : List I) : S := is.foldl (fun s i => (M.step s i).1) s

/-- The outputs of a run. -/
def trace : S → List I → List O
  | _, [] => []
  | s, i :: is => (M.step s i).2 ++ trace (M.step s i).1 is

@[simp] theorem exec_nil (s : S) : M.exec s [] = s := rfl

@[simp] theorem exec_cons (s : S) (i : I) (is : List I) : M.exec s (i :: is) = M.exec (M.step s i).1 is := rfl

@[simp] theorem exec_append (s : S) (is js : List I) : M.exec s (is ++ js) = M.exec (M.exec s is) js := by
  simp [exec]

@[simp] theorem trace_nil (s : S) : M.trace s [] = [] := rfl

@[simp] theorem trace_cons (s : S) (i : I) (is : List I) :
    M.trace s (i :: is) = (M.step s i).2 ++ M.trace (M.step s i).1 is := rfl

theorem trace_append (s : S) (is js : List I) :
    M.trace s (is ++ js) = M.trace s is ++ M.trace (M.exec s is) js := by
  induction is generalizing s with
  | nil => rfl
  | cons i is ih => simp [ih]

theorem mem_trace {M : Machine S I O} {x : O} {s : S} {is : List I} :
    x ∈ M.trace s is ↔ ∃ pre i post, is = pre ++ i :: post ∧ x ∈ (M.step (M.exec s pre) i).2 := by
  constructor
  · intro h
    induction is generalizing s with
    | nil => cases h
    | cons i is ih =>
      rcases List.mem_append.1 h with h | h
      · exact ⟨[], i, is, rfl, h⟩
      · obtain ⟨pre, k, post, rfl, hx⟩ := ih h
        exact ⟨i :: pre, k, post, rfl, hx⟩
  · rintro ⟨pre, i, post, rfl, hx⟩
    rw [trace_append, trace_cons]
    exact List.mem_append_right _ (List.mem_append_left _ hx)

/-- Every step of the run meets `C`, given the trace before it, the state before it and its input. -/
def EveryStep (C : List O → S → I → Prop) (s : S) (is : List I) : Prop :=
  ∀ pre i post, is = pre ++ i :: post → C (M.trace s pre) (M.exec s pre) i

variable {M}

theorem EveryStep.init {C : List O → S → I → Prop} {s : S} {pre post : List I}
    (h : M.EveryStep C s (pre ++ post)) : M.EveryStep C s pre := by
  rintro p i q rfl
  exact h p i (q ++ post) (by simp)

theorem everyStep_snoc {C : List O → S → I → Prop} {s : S} {is : List I} {i : I} :
    M.EveryStep C s (is ++ [i]) ↔ M.EveryStep C s is ∧ C (M.trace s is) (M.exec s is) i := by
  constructor
  · intro h
    exact ⟨h.init, h is i [] rfl⟩
  · rintro ⟨h, hi⟩ pre k post heq
    rcases List.eq_nil_or_concat post with rfl | ⟨post', x, rfl⟩
    · obtain ⟨rfl, hk⟩ := List.append_inj' heq rfl
      cases hk; exact hi
    · rw [List.concat_eq_append, ← List.cons_append, ← List.append_assoc] at heq
      exact h pre k post' (List.append_inj' heq rfl).1

@[simp] theorem everyStep_nil {C : List O → S → I → Prop} {s : S} : M.EveryStep C s [] := by
  intro pre i post heq
  cases pre <;> cases heq

@[simp] theorem everyStep_cons {C : List O → S → I → Prop} {s : S} {i : I} {is : List I} :
    M.EveryStep C s (i :: is) ↔
      C [] s i ∧ M.EveryStep (fun tr => C ((M.step s i).2 ++ tr)) (M.step s i).1 is := by
  constructor
  · intro h
    exact ⟨h [] i is rfl, fun pre k post heq => h (i :: pre) k post (by rw [heq, List.cons_append])⟩
  · rintro ⟨hi, h⟩ pre k post heq
    cases pre with
    | nil => cases heq; exact hi
    | cons x pre => cases heq; exact h pre k post rfl

/-- The invariant rule: what holds before a run and is kept by each step that meets the run's
condition holds after the run. -/
theorem EveryStep.inv {C : List O → S → I → Prop} {P : List O → S → Prop} {s : S} (h0 : P [] s)
    (hstep : ∀ tr s i, P tr s → C tr s i → P (tr ++ (M.step s i).2) (M.step s i).1) {is : List I}
    (h : M.EveryStep C s is) : P (M.trace s is) (M.exec s is) := by
  induction is using List.reverseRecOn with
  | nil => exact h0
  | append_singleton is i ih =>
    obtain ⟨hpre, hi⟩ := everyStep_snoc.1 h
    rw [trace_append, exec_append]
    simpa using hstep _ _ i (ih hpre) hi

/-- The step rule: under an invariant of the run, a condition on its steps yields another. -/
theorem EveryStep.imp {C D : List O → S → I → Prop} {P : List O → S → Prop} {s : S} (h0 : P [] s)
    (hstep : ∀ tr s i, P tr s → C tr s i → P (tr ++ (M.step s i).2) (M.step s i).1)
    (himp : ∀ tr s i, P tr s → C tr s i → D tr s i) {is : List I} (h : M.EveryStep C s is) :
    M.EveryStep D s is := by
  rintro pre i post rfl
  exact himp _ _ i (EveryStep.inv h0 hstep h.init) (h pre i post rfl)

/-- The invariant rule for unconditional runs. -/
theorem exec_inv {P : S → Prop} {s : S} (h0 : P s) (hstep : ∀ s i, P s → P (M.step s i).1) (is : List I) :
    P (M.exec s is) :=
  EveryStep.inv (M := M) (C := fun _ _ _ => True) (P := fun _ s => P s) h0 (fun _ s i hs _ => hstep s i hs)
    (fun _ _ _ _ => trivial)

/-- The simulation rule: a relation between the states of two machines that steps on one input keep, when the
first one's step meets the run's condition, holds after the run. -/
theorem EveryStep.sim {T P : Type} {N : Machine T I P} {C : List O → S → I → Prop} {R : S → T → Prop} {s : S} {t : T}
    (h0 : R s t) (hstep : ∀ tr s t i, R s t → C tr s i → R (M.step s i).1 (N.step t i).1) {is : List I}
    (h : M.EveryStep C s is) : R (M.exec s is) (N.exec t is) := by
  induction is using List.reverseRecOn with
  | nil => exact h0
  | append_singleton is i ih =>
    obtain ⟨hpre, hi⟩ := everyStep_snoc.1 h
    rw [exec_append, exec_append]
    exact hstep _ _ _ i (ih hpre) hi

/-- The simulation rule for unconditional runs. -/
theorem exec_sim {T P : Type} {N : Machine T I P} {R : S → T → Prop} {s : S} {t : T} (h0 : R s t)
    (hstep : ∀ s t i, R s t → R (M.step s i).1 (N.step t i).1) (is : List I) : R (M.exec s is) (N.exec t is) :=
  EveryStep.sim (C := fun _ _ _ => True) h0 (fun _ s t i h _ => hstep s t i h) (fun _ _ _ _ => trivial)

/-- Steps on one input that keep the relation and show the same make runs that show the same. -/
theorem trace_sim {T : Type} {N : Machine T I O} {R : S → T → Prop} {s : S} {t : T} (h0 : R s t)
    (hstep : ∀ s t i, R s t → R (M.step s i).1 (N.step t i).1 ∧ (M.step s i).2 = (N.step t i).2) (is : List I) :
    M.trace s is = N.trace t is := by
  induction is generalizing s t with
  | nil => rfl
  | cons i is ih =>
    obtain ⟨hnext, hout⟩ := hstep s t i h0
    rw [trace_cons, trace_cons, hout, ih hnext]

/-- The rule for inputs that do nothing: if the inputs that are let through do and show what they do in another
machine, and the others leave the state alone, a run is the other machine's run on the inputs that are let through,
and what it shows is the same up to outputs that do not count. -/
theorem run_filter {N : Machine S I O} {passes : I → Bool} {keep : O → Bool}
    (hin : ∀ s i, passes i = true → (M.step s i).1 = (N.step s i).1 ∧ (M.step s i).2.filter keep = (N.step s i).2)
    (hout : ∀ s i, passes i = false → (M.step s i).1 = s ∧ (M.step s i).2.filter keep = []) (s : S) (is : List I) :
    M.exec s is = N.exec s (is.filter passes) ∧ (M.trace s is).filter keep = N.trace s (is.filter passes) := by
  induction is generalizing s with
  | nil => exact ⟨rfl, rfl⟩
  | cons i is ih =>
    rw [exec_cons, trace_cons, List.filter_append, (ih _).1, (ih _).2]
    cases hi : passes i with
    | true =>
      obtain ⟨hstate, hshown⟩ := hin s i hi
      rw [List.filter_cons_of_pos hi, exec_cons, trace_cons, hstate, hshown]
      exact ⟨rfl, rfl⟩
    | false =>
      obtain ⟨hstate, hshown⟩ := hout s i hi
      rw [List.filter_cons_of_neg (Bool.eq_false_iff.1 hi), hstate, hshown]
      exact ⟨rfl, rfl⟩

theorem everyStep_append {C : List O → S → I → Prop} {s : S} {is js : List I} :
    M.EveryStep C s (is ++ js) ↔
      M.EveryStep C s is ∧ M.EveryStep (fun tr => C (M.trace s is ++ tr)) (M.exec s is) js := by
  induction is generalizing s C with
  | nil => simp
  | cons i is ih =>
    rw [List.cons_append, everyStep_cons, everyStep_cons, ih, and_assoc]
    simp [List.append_assoc]

/-- The rule for exact conditions: a property that, under an invariant, holds after a step exactly if the step meets a
condition holds throughout a run exactly if all of its steps do. -/
theorem everyPrefix_iff {P Q : S → Prop} {C : S → I → Prop} {s : S} (hQ : Q s) (hP : P s)
    (hinv : ∀ s i, Q s → Q (M.step s i).1) (hstep : ∀ s i, Q s → P s → (P (M.step s i).1 ↔ C s i)) (is : List I) :
    (∀ pre, pre <+: is → P (M.exec s pre)) ↔ M.EveryStep (fun _ s i => C s i) s is := by
  constructor
  · rintro h pre i post rfl
    have hnext := h (pre ++ [i]) ⟨post, by simp⟩
    rw [exec_append] at hnext
    exact (hstep _ i (exec_inv hQ hinv pre) (h pre ⟨i :: post, rfl⟩)).1 hnext
  · rintro h pre ⟨post, rfl⟩
    have hboth := h.init.inv (P := fun _ s => Q s ∧ P s) ⟨hQ, hP⟩
      fun _ s i hs hi => ⟨hinv s i hs.1, (hstep s i hs.1 hs.2).2 hi⟩
    exact hboth.2

/-! ## History variables -/

/-- The machine with a note beside its state: `note` sees the state before each step and does not influence it. -/
def track {H : Type} (M : Machine S I O) (note : H → S → I → H) : Machine (S × H) I O :=
  ⟨fun p i => (((M.step p.1 i).1, note p.2 p.1 i), (M.step p.1 i).2)⟩

theorem track_exec {H : Type} (note : H → S → I → H) (p : S × H) (is : List I) :
    ((M.track note).exec p is).1 = M.exec p.1 is :=
  exec_sim (M := M.track note) (N := M) (R := fun p s => p.1 = s) rfl (fun _ _ _ h => by subst h; rfl) is

/-- A condition that does not look at the note. -/
theorem everyStep_track {H : Type} {note : H → S → I → H} {C : S → I → Prop} {p : S × H} {is : List I} :
    (M.track note).EveryStep (fun _ p i => C p.1 i) p is ↔ M.EveryStep (fun _ s i => C s i) p.1 is := by
  constructor
  · intro h pre i post heq
    rw [← track_exec note p pre]
    exact h pre i post heq
  · intro h pre i post heq
    have hi := h pre i post heq
    rw [← track_exec note p pre] at hi
    exact hi

/-! ## What can be reached -/

/-- From the state `s` after the trace `tr`, some run whose steps meet `C` ends where `Q` holds. -/
def Leads (M : Machine S I O) (C : List O → S → I → Prop) (Q : List O → S → Prop) (tr : List O) (s : S) : Prop :=
  ∃ is, M.EveryStep (fun t => C (tr ++ t)) s is ∧ Q (tr ++ M.trace s is) (M.exec s is)

section
variable {C : List O → S → I → Prop} {Q R : List O → S → Prop} {tr : List O} {s : S}

theorem Leads.here (h : Q tr s) : M.Leads C Q tr s := ⟨[], everyStep_nil, by simpa using h⟩

theorem Leads.bind (h : M.Leads C Q tr s) (hQ : ∀ tr s, Q tr s → M.Leads C R tr s) : M.Leads C R tr s := by
  obtain ⟨is, his, hq⟩ := h
  obtain ⟨js, hjs, hr⟩ := hQ _ _ hq
  refine ⟨is ++ js, everyStep_append.2 ⟨his, ?_⟩, ?_⟩
  · simpa [List.append_assoc] using hjs
  · simpa [trace_append, List.append_assoc] using hr

theorem Leads.step {i : I} (hi : C tr s i) (h : Q (tr ++ (M.step s i).2) (M.step s i).1) : M.Leads C Q tr s :=
  ⟨[i], everyStep_cons.2 ⟨by simpa using hi, everyStep_nil⟩, by simpa using h⟩

/-- One input, given again and again, lowers a measure until `Q` holds. -/
theorem Leads.of_measure {P : List O → S → Prop} (μ : S → Nat) (i : I)
    (hstep : ∀ tr s, P tr s → C tr s i ∧ (Q (tr ++ (M.step s i).2) (M.step s i).1 ∨
      P (tr ++ (M.step s i).2) (M.step s i).1 ∧ μ (M.step s i).1 < μ s)) (h : P tr s) : M.Leads C Q tr s := by
  induction hn : μ s using Nat.strong_induction_on generalizing tr s with
  | _ n ih =>
    obtain ⟨hc, hq | ⟨hp, hlt⟩⟩ := hstep tr s h
    · exact .step hc hq
    · have hlead := ih _ (hn ▸ hlt) hp rfl
      obtain ⟨is, his, hq⟩ := hlead
      refine ⟨i :: is, everyStep_cons.2 ⟨by simpa using hc, ?_⟩, ?_⟩
      · simpa [List.append_assoc] using his
      · simpa [List.append_assoc] using hq

end

end Machine

end Quorum
