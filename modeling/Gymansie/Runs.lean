import Mathlib.Data.List.Basic

/-! Runs of a labelled transition relation, and two ways to say that a property
holds along one: of every state passed through, or of every step in the state
it is taken in. The relation may be partial and nondeterministic; a schedule
that gets stuck is followed as far as it goes. Histories are looked at from
their end, for an event that nothing later has undone. -/
namespace Gymansie.Runs
universe u v w
variable {S : Type u} {E : Type v}

/-- The events `es`, taken in order, lead from `s` to `t`. -/
inductive Run (step : S → E → S → Prop) : S → List E → S → Prop where
  | done (s) : Run step s [] s
  | next : step s e t → Run step t es w → Run step s (e :: es) w

theorem Run.append {step : S → E → S → Prop} (first : Run step s es t) (second : Run step t fs w) :
    Run step s (es ++ fs) w := by
  induction first with
  | done => exact second
  | next head _ ih => exact .next head (ih second)

/-- Runs looked at from their end. -/
theorem Run.snoc_induction {step : S → E → S → Prop} {motive : ∀ es t, Run step s es t → Prop}
    (initial : motive [] s (.done s))
    (snoc : ∀ {es t e w} (run : Run step s es t) (last : step t e w), motive es t run →
      motive (es ++ [e]) w (run.append (.next last (.done w))))
    (run : Run step s es t) : motive es t run := by
  have longer {u es t} (rest : Run step u es t) : ∀ done (run : Run step s done u),
      motive done u run → motive (done ++ es) t (run.append rest) := by
    induction rest with
    | done =>
      intro done run holds
      simpa using holds
    | @next u e v es w head tail ih =>
      intro done run holds
      have further := ih (done ++ [e]) (run.append (.next head (.done v))) (snoc run head holds)
      simpa using further
  exact longer run [] (.done s) initial

theorem Run.unique {step : S → E → S → Prop} (first : Run step s es t) (second : Run step s es u)
    (unique : ∀ {s e t u}, step s e t → step s e u → t = u) : t = u := by
  induction first with
  | done =>
    cases second
    rfl
  | next head _ ih =>
    cases second with
    | next head' rest =>
      rw [unique head' head] at rest
      exact ih rest

/-- Where at most one step is possible in each state, a run to a state with none
is the only one. -/
theorem Run.only {step : S → E → S → Prop} (first : Run step s es t) (second : Run step s fs u)
    (unique : ∀ {s e f t u}, step s e t → step s f u → e = f ∧ t = u)
    (ended : ∀ e w, ¬ step t e w) (ended' : ∀ e w, ¬ step u e w) : es = fs ∧ t = u := by
  induction first generalizing fs with
  | done =>
    cases second with
    | done => exact ⟨rfl, rfl⟩
    | next head => exact absurd head (ended _ _)
  | next head _ ih =>
    cases second with
    | done => exact absurd head (ended' _ _)
    | next head' rest =>
      obtain ⟨rfl, rfl⟩ := unique head head'
      obtain ⟨rfl, same⟩ := ih rest ended
      exact ⟨rfl, same⟩

/-- `P` holds in every state that some executable prefix of `es` leads to. -/
def Always (step : S → E → S → Prop) (P : S → Prop) (s : S) (es : List E) : Prop :=
  ∀ before after t, es = before ++ after → Run step s before t → P t

/-- Every step taken along `es` meets `C` in the state before it. -/
def Each (step : S → E → S → Prop) (C : S → E → Prop) (s : S) (es : List E) : Prop :=
  ∀ before e after t w, es = before ++ e :: after → Run step s before t → step t e w → C t e

/-- Some step taken along `es` meets `C` in the state before it. -/
def Sometime (step : S → E → S → Prop) (C : S → E → Prop) (s : S) (es : List E) : Prop :=
  ∃ before e after t w, es = before ++ e :: after ∧ Run step s before t ∧ step t e w ∧ C t e

/-- A run, with the number of its steps that meet `C` in the state before them. -/
inductive Tally (step : S → E → S → Prop) (C : S → E → Prop) : S → List E → Nat → S → Prop where
  | done (s) : Tally step C s [] 0 s
  | counted : step s e t → C s e → Tally step C t es n w → Tally step C s (e :: es) (n + 1) w
  | passed : step s e t → ¬ C s e → Tally step C t es n w → Tally step C s (e :: es) n w

variable {step : S → E → S → Prop} {P Q : S → Prop} {C : S → E → Prop}

theorem Tally.run (tally : Tally step C s es n t) : Run step s es t := by
  induction tally with
  | done => exact .done _
  | counted head _ _ ih | passed head _ _ ih => exact .next head ih

theorem Run.tally (run : Run step s es t) (C : S → E → Prop) : ∃ n, Tally step C s es n t := by
  induction run with
  | done => exact ⟨0, .done _⟩
  | @next s e t es w head _ ih =>
    obtain ⟨n, rest⟩ := ih
    by_cases meets : C s e
    · exact ⟨n + 1, .counted head meets rest⟩
    · exact ⟨n, .passed head meets rest⟩

/-- Along a refined run as many steps are counted. -/
theorem Tally.map {S' : Type w} {step' : S' → E → S' → Prop} {f : S → S'} {D : S' → E → Prop}
    (tally : Tally step (fun s e => D (f s) e) s es n t)
    (refines : ∀ {s e t}, step s e t → step' (f s) e (f t)) : Tally step' D (f s) es n (f t) := by
  induction tally with
  | done => exact .done _
  | counted head meets _ ih => exact .counted (refines head) meets ih
  | passed head fails _ ih => exact .passed (refines head) fails ih

theorem Always.head (always : Always step P s es) : P s :=
  always [] es s rfl (.done s)

theorem always_nil : Always step P s [] ↔ P s := by
  constructor
  · intro always
    exact always.head
  · intro holds before after t split run
    obtain ⟨rfl, -⟩ := List.append_eq_nil_iff.mp split.symm
    cases run
    exact holds

theorem always_cons :
    Always step P s (e :: es) ↔ P s ∧ ∀ t, step s e t → Always step P t es := by
  constructor
  · intro always
    refine ⟨always.head, ?_⟩
    intro t head before after w split run
    exact always (e :: before) after w (by rw [split, List.cons_append]) (.next head run)
  · rintro ⟨holds, rest⟩ before after w split run
    cases run with
    | done => exact holds
    | next head tail =>
      rw [List.cons_append] at split
      obtain ⟨rfl, tailSplit⟩ := List.cons.inj split
      exact rest _ head _ after w tailSplit tail

theorem each_nil : Each step C s [] := by
  intro before e after t w split
  simp at split

theorem each_cons :
    Each step C s (e :: es) ↔ ∀ t, step s e t → C s e ∧ Each step C t es := by
  constructor
  · intro each t head
    refine ⟨each [] e es s t rfl (.done s) head, ?_⟩
    intro before f after w x split run taken
    exact each (e :: before) f after w x (by rw [split, List.cons_append]) (.next head run) taken
  · intro rest before f after w x split run taken
    cases run with
    | done =>
      obtain ⟨rfl, rfl⟩ := List.cons.inj split
      exact (rest _ taken).1
    | next head tail =>
      rw [List.cons_append] at split
      obtain ⟨rfl, tailSplit⟩ := List.cons.inj split
      exact (rest _ head).2 _ f after w x tailSplit tail taken

theorem each_congr {D : S → E → Prop} (same : ∀ s e, C s e ↔ D s e) :
    Each step C s es ↔ Each step D s es := by
  simp only [Each, same]

theorem not_sometime_nil : ¬ Sometime step C s [] := by
  rintro ⟨before, e, after, t, w, split, -⟩
  simp at split

theorem sometime_snoc (run : Run step s es t) (last : step t e w)
    (unique : ∀ {s e t u}, step s e t → step s e u → t = u) :
    Sometime step C s (es ++ [e]) ↔ Sometime step C s es ∨ C t e := by
  constructor
  · rintro ⟨before, f, after, u, v, split, passed, taken, meets⟩
    rcases List.eq_nil_or_concat after with rfl | ⟨after, final, rfl⟩
    · obtain ⟨rfl, same⟩ := List.append_inj' split rfl
      obtain rfl := List.singleton_inj.mp same
      obtain rfl := run.unique passed unique
      exact .inr meets
    · rw [List.concat_eq_append, ← List.cons_append, ← List.append_assoc] at split
      obtain ⟨rfl, -⟩ := List.append_inj' split rfl
      exact .inl ⟨before, f, after, u, v, rfl, passed, taken, meets⟩
  · rintro (⟨before, f, after, u, v, rfl, passed, taken, meets⟩ | meets)
    · exact ⟨before, f, after ++ [e], u, v, by simp, passed, taken, meets⟩
    · exact ⟨es, e, [], t, w, rfl, run, last, meets⟩

section Invariant
variable {I : S → Prop}

/-- An invariant that every step meeting `C` keeps holds along a schedule whose
steps meet `C`. -/
theorem always_of_each (initial : I s) (met : ∀ {s e t}, I s → step s e t → C s e → I t)
    (holds : ∀ {s}, I s → P s) (each : Each step C s es) : Always step P s es := by
  induction es generalizing s with
  | nil => exact always_nil.mpr (holds initial)
  | cons e es ih =>
    refine always_cons.mpr ⟨holds initial, fun t head => ?_⟩
    obtain ⟨meets, rest⟩ := each_cons.mp each t head
    exact ih (met initial head meets) rest

/-- A property that holds at first and that every step keeps. -/
theorem always_of_inv (initial : P s) (keeps : ∀ {s e t}, P s → step s e t → P t) :
    Always step P s es := by
  induction es generalizing s with
  | nil => exact always_nil.mpr initial
  | cons e es ih => exact always_cons.mpr ⟨initial, fun t head => ih (keeps initial head)⟩

/-- If a step that breaks `C` breaks `P`, a schedule along which `P` holds has
no such step. -/
theorem each_of_always (initial : I s) (met : ∀ {s e t}, I s → step s e t → C s e → I t)
    (needed : ∀ {s e t}, I s → step s e t → P t → C s e) (always : Always step P s es) :
    Each step C s es := by
  induction es generalizing s with
  | nil => exact each_nil
  | cons e es ih =>
    refine each_cons.mpr fun t head => ?_
    have rest := (always_cons.mp always).2 t head
    have meets := needed initial head rest.head
    exact ⟨meets, ih (met initial head meets) rest⟩

theorem always_iff_each (initial : I s) (met : ∀ {s e t}, I s → step s e t → C s e → I t)
    (holds : ∀ {s}, I s → P s) (needed : ∀ {s e t}, I s → step s e t → P t → C s e) :
    Always step P s es ↔ Each step C s es :=
  ⟨each_of_always initial met needed, always_of_each initial met holds⟩

/-- A property that every step keeps exactly if it meets `C`. -/
theorem always_iff_each_of_kept (initial : P s) (kept : ∀ {s e t}, P s → step s e t → (P t ↔ C s e)) :
    Always step P s es ↔ Each step C s es :=
  always_iff_each initial (fun holds taken => (kept holds taken).mpr) (fun holds => holds)
    (fun holds taken => (kept holds taken).mp)

end Invariant

/-- Two state properties agree along a schedule when they agree on the states
an invariant admits, and either one is enough for the next step to keep it. -/
theorem always_iff_always {I M : S → Prop} (initial : I s)
    (agree : ∀ {s}, I s → (P s ↔ Q s)) (left : ∀ {s}, P s → M s) (right : ∀ {s}, Q s → M s)
    (keeps : ∀ {s e t}, I s → step s e t → M t → I t) :
    Always step P s es ↔ Always step Q s es := by
  induction es generalizing s with
  | nil => rw [always_nil, always_nil, agree initial]
  | cons e es ih =>
    rw [always_cons, always_cons, agree initial]
    refine and_congr_right fun _ => forall_congr' fun t => imp_congr_right fun head => ?_
    by_cases monitored : M t
    · exact ih (keeps initial head monitored)
    · exact iff_of_false (fun h => monitored (left h.head)) (fun h => monitored (right h.head))

section Histories

/-- Some event started something where it stands, and all later ones keep it. -/
def Since (starts : List E → E → Prop) (keeps : E → Prop) (history : List E) : Prop :=
  ∃ before e after, history = before ++ e :: after ∧ starts before e ∧ ∀ later ∈ after, keeps later

variable {starts : List E → E → Prop} {keeps : E → Prop}

theorem not_since_nil : ¬ Since starts keeps [] := by
  rintro ⟨before, e, after, split, -⟩
  simp at split

theorem since_snoc (history : List E) (last : E) :
    Since starts keeps (history ++ [last]) ↔
      starts history last ∨ keeps last ∧ Since starts keeps history := by
  constructor
  · rintro ⟨before, e, after, split, started, kept⟩
    rcases List.eq_nil_or_concat after with rfl | ⟨after, final, rfl⟩
    · obtain ⟨rfl, same⟩ := List.append_inj' split rfl
      obtain rfl := List.singleton_inj.mp same
      exact .inl started
    · rw [List.concat_eq_append] at split kept
      rw [← List.cons_append, ← List.append_assoc] at split
      obtain ⟨initial, same⟩ := List.append_inj' split rfl
      obtain rfl := List.singleton_inj.mp same
      obtain ⟨earlier, final⟩ := List.forall_mem_append.mp kept
      exact .inr ⟨final last (List.mem_singleton_self last), before, e, after, initial, started, earlier⟩
  · rintro (started | ⟨final, before, e, after, rfl, started, kept⟩)
    · exact ⟨history, last, [], rfl, started, fun _ absent => absurd absent List.not_mem_nil⟩
    · refine ⟨before, e, after ++ [last], by simp, started, ?_⟩
      exact List.forall_mem_append.mpr ⟨kept, List.forall_mem_singleton.mpr final⟩

/-- As `Since`, but what keeps may look at all the events before. -/
def SinceIn (starts keeps : List E → E → Prop) (history : List E) : Prop :=
  ∃ before e after, history = before ++ e :: after ∧ starts before e ∧
    ∀ between later rest, after = between ++ later :: rest → keeps (before ++ e :: between) later

theorem sinceIn_snoc {starts keeps : List E → E → Prop} (history : List E) (last : E) :
    SinceIn starts keeps (history ++ [last]) ↔
      starts history last ∨ keeps history last ∧ SinceIn starts keeps history := by
  constructor
  · rintro ⟨before, e, after, split, started, kept⟩
    rcases List.eq_nil_or_concat after with rfl | ⟨after, final, rfl⟩
    · obtain ⟨rfl, same⟩ := List.append_inj' split rfl
      obtain rfl := List.singleton_inj.mp same
      exact .inl started
    · rw [List.concat_eq_append] at split kept
      rw [← List.cons_append, ← List.append_assoc] at split
      obtain ⟨rfl, same⟩ := List.append_inj' split rfl
      obtain rfl := List.singleton_inj.mp same
      refine .inr ⟨kept after last [] rfl, before, e, after, rfl, started, ?_⟩
      intro between later rest behind
      exact kept between later (rest ++ [last]) (by simp [behind])
  · rintro (started | ⟨final, before, e, after, rfl, started, kept⟩)
    · exact ⟨history, last, [], rfl, started, fun between later rest split => by simp at split⟩
    · refine ⟨before, e, after ++ [last], by simp, started, ?_⟩
      intro between later rest split
      rcases List.eq_nil_or_concat rest with rfl | ⟨rest, same, rfl⟩
      · obtain ⟨rfl, same⟩ := List.append_inj' split rfl
        obtain rfl := List.singleton_inj.mp same
        exact final
      · rw [List.concat_eq_append, ← List.cons_append, ← List.append_assoc] at split
        exact kept between later rest (List.append_inj' split rfl).1

theorem not_sinceIn_nil {starts keeps : List E → E → Prop} : ¬ SinceIn starts keeps [] := by
  rintro ⟨before, e, after, split, -⟩
  simp at split

end Histories
end Gymansie.Runs
