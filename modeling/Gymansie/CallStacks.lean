import Mathlib.Data.List.Basic

/-! Calls in progress on any number of threads, newest first. A thread leaves
its own newest call; a log kept in push order gives up its newest entry instead.
The two stay in step as long as the innermost calls of all threads carry one
value, whatever the keys the entries are filed under. -/
namespace Gymansie.CallStacks
universe u v w

structure Frame (Thread : Type u) (Key : Type v) (Value : Type w) where
  thread : Thread
  key : Key
  value : Value
  deriving DecidableEq

variable {Thread : Type u} {Key : Type v} {Value : Type w} [DecidableEq Thread]

def innermost (calls : List (Frame Thread Key Value)) (thread : Thread) :
    Option (Frame Thread Key Value) :=
  calls.find? (·.thread = thread)

/-- The innermost call of the thread ends. -/
def leave (calls : List (Frame Thread Key Value)) (thread : Thread) :
    List (Frame Thread Key Value) :=
  calls.eraseP (·.thread = thread)

/-- The values filed under a key, in push order. -/
def filed [DecidableEq Key] (calls : List (Frame Thread Key Value)) (key : Key) : List Value :=
  ((calls.filter (·.key = key)).map (·.value)).reverse

/-- How many calls are filed under a key. -/
def pending [DecidableEq Key] (calls : List (Frame Thread Key Value)) (key : Key) : Nat :=
  calls.countP (·.key = key)

/-- How many calls of the thread are filed under a key. -/
def filedBy [DecidableEq Key] (calls : List (Frame Thread Key Value)) (thread : Thread) (key : Key) : Nat :=
  pending (calls.filter (·.thread = thread)) key

/-- How many calls of the thread are in progress. -/
def active (calls : List (Frame Thread Key Value)) (thread : Thread) : Nat :=
  calls.countP (·.thread = thread)

/-- The newest call filed under a key. -/
def newest [DecidableEq Key] (calls : List (Frame Thread Key Value)) (key : Key) :
    Option (Frame Thread Key Value) :=
  calls.find? (·.key = key)

/-- The innermost calls of all threads carry the same value. -/
def Agree (calls : List (Frame Thread Key Value)) : Prop :=
  ∀ t u c d, innermost calls t = some c → innermost calls u = some d → c.value = d.value

omit [DecidableEq Thread] in
/-- Calls of one thread at most, and on top of them calls of equal value. -/
def Layered (calls : List (Frame Thread Key Value)) : Prop :=
  ∃ newer older, calls = newer ++ older ∧
    (∀ c ∈ newer, ∀ d ∈ newer, c.value = d.value) ∧ ∀ c ∈ older, ∀ d ∈ older, c.thread = d.thread

theorem innermost_exists {calls : List (Frame Thread Key Value)} (member : c ∈ calls) :
    ∃ d, innermost calls c.thread = some d := by
  apply Option.isSome_iff_exists.mp
  exact List.find?_isSome.mpr ⟨c, member, decide_eq_true rfl⟩

theorem innermost_head (c : Frame Thread Key Value) (calls : List (Frame Thread Key Value)) :
    innermost (c :: calls) c.thread = some c :=
  List.find?_cons_of_pos (decide_eq_true rfl)

theorem innermost_cons_of_ne {calls : List (Frame Thread Key Value)} {c : Frame Thread Key Value}
    {thread : Thread} (other : c.thread ≠ thread) :
    innermost (c :: calls) thread = innermost calls thread :=
  List.find?_cons_of_neg (by simpa using other)

theorem innermost_split {calls : List (Frame Thread Key Value)}
    (found : innermost calls thread = some c) :
    c.thread = thread ∧ ∃ above below, calls = above ++ c :: below ∧ ∀ d ∈ above, d.thread ≠ thread := by
  obtain ⟨own, above, below, split, others⟩ := List.find?_eq_some_iff_append.mp found
  refine ⟨of_decide_eq_true own, above, below, split, ?_⟩
  intro d member
  simpa using others d member

theorem leave_split {calls : List (Frame Thread Key Value)}
    (split : calls = above ++ c :: below) (others : ∀ d ∈ above, d.thread ≠ c.thread) :
    leave calls c.thread = above ++ below := by
  rw [split, leave, List.eraseP_append_right _ (by simpa using others)]
  simp

theorem active_cons (call : Frame Thread Key Value) (calls : List (Frame Thread Key Value))
    (thread : Thread) :
    active (call :: calls) thread = active calls thread + if thread = call.thread then 1 else 0 := by
  have same : decide (call.thread = thread) = true ↔ thread = call.thread := by
    rw [decide_eq_true_eq, eq_comm]
  simp only [active, List.countP_cons, same]

theorem active_leave {calls : List (Frame Thread Key Value)}
    (found : innermost calls thread = some c) (other : Thread) :
    active calls other = active (leave calls thread) other + if other = thread then 1 else 0 := by
  obtain ⟨rfl, above, below, split, others⟩ := innermost_split found
  have same : decide (c.thread = other) = true ↔ other = c.thread := by
    rw [decide_eq_true_eq, eq_comm]
  rw [leave_split split others, split]
  simp only [active, List.countP_append, List.countP_cons, same, Nat.add_assoc]

theorem pending_split [DecidableEq Key] (calls : List (Frame Thread Key Value)) (thread : Thread)
    (key : Key) :
    pending calls key = filedBy calls thread key + pending (calls.filter (·.thread ≠ thread)) key := by
  induction calls with
  | nil => rfl
  | cons c calls ih =>
    simp only [filedBy, pending, List.filter_cons, List.countP_cons] at ih ⊢
    by_cases own : c.thread = thread
    · simp only [own, decide_true, if_true, ne_eq, not_true_eq_false, decide_false, Bool.false_eq_true,
        if_false, List.countP_cons] at ih ⊢
      omega
    · simp only [own, decide_false, Bool.false_eq_true, if_false, ne_eq, not_false_eq_true, decide_true,
        if_true, List.countP_cons] at ih ⊢
      omega

/-- Where the other threads have the same calls, the thread's own make the
difference. -/
theorem pending_others [DecidableEq Key] {calls calls' : List (Frame Thread Key Value)}
    (same : calls.filter (·.thread ≠ thread) = calls'.filter (·.thread ≠ thread)) (key : Key) :
    pending calls key + filedBy calls' thread key = pending calls' key + filedBy calls thread key := by
  rw [pending_split calls thread key, pending_split calls' thread key, same]
  omega

theorem filedBy_pos [DecidableEq Key] {calls : List (Frame Thread Key Value)}
    (found : innermost calls thread = some c) : 0 < filedBy calls thread c.key := by
  obtain ⟨own, above, below, rfl, -⟩ := innermost_split found
  apply List.countP_pos_iff.mpr
  exact ⟨c, by simp [own], decide_eq_true rfl⟩

theorem filedBy_of_inactive [DecidableEq Key] {calls : List (Frame Thread Key Value)}
    (none : active calls thread = 0) (key : Key) : filedBy calls thread key = 0 := by
  rw [filedBy, List.filter_eq_nil_iff.mpr, pending, List.countP_nil]
  intro c member
  simpa using List.countP_eq_zero.mp none c member

theorem others_leave {calls : List (Frame Thread Key Value)} (found : innermost calls thread = some c) :
    (leave calls thread).filter (·.thread ≠ thread) = calls.filter (·.thread ≠ thread) := by
  obtain ⟨rfl, above, below, split, others⟩ := innermost_split found
  rw [leave_split split others, split]
  simp

theorem others_of_inactive {calls : List (Frame Thread Key Value)} (none : active calls thread = 0) :
    calls.filter (·.thread ≠ thread) = calls := by
  refine List.filter_eq_self.mpr ?_
  intro c member
  simpa using List.countP_eq_zero.mp none c member

theorem nil_of_inactive {calls : List (Frame Thread Key Value)}
    (none : ∀ thread, active calls thread = 0) : calls = [] := by
  refine List.eq_nil_iff_forall_not_mem.mpr ?_
  intro c member
  exact List.countP_eq_zero.mp (none c.thread) c member (decide_eq_true rfl)

theorem innermost_of_active {calls : List (Frame Thread Key Value)} (busy : 0 < active calls thread) :
    ∃ c, innermost calls thread = some c := by
  obtain ⟨c, member, own⟩ := List.countP_pos_iff.mp busy
  obtain rfl := of_decide_eq_true own
  exact innermost_exists member

omit [DecidableEq Thread] in
theorem Layered.sublist {calls rest : List (Frame Thread Key Value)} (layered : Layered calls)
    (included : rest.Sublist calls) : Layered rest := by
  obtain ⟨newer, older, rfl, alike, single⟩ := layered
  obtain ⟨newer', older', rfl, left, right⟩ := List.sublist_append_iff.mp included
  refine ⟨newer', older', rfl, ?_, ?_⟩
  · intro c member d member'
    exact alike c (left.subset member) d (left.subset member')
  · intro c member d member'
    exact single c (right.subset member) d (right.subset member')

theorem Layered.leave {calls : List (Frame Thread Key Value)} (layered : Layered calls)
    (thread : Thread) : Layered (leave calls thread) :=
  layered.sublist List.eraseP_sublist

theorem Layered.push {calls : List (Frame Thread Key Value)} (layered : Layered calls)
    (agree : Agree calls) (call : Frame Thread Key Value) (pushed : Agree (call :: calls)) :
    Layered (call :: calls) := by
  by_cases alone : ∀ d ∈ calls, d.thread = call.thread
  · refine ⟨[], call :: calls, rfl, by simp, ?_⟩
    have own : ∀ c ∈ call :: calls, c.thread = call.thread := by
      simpa using alone
    intro c member d member'
    exact (own c member).trans (own d member').symm
  · -- a call of another thread carries the new value, and so do all innermost ones
    push Not at alone
    obtain ⟨other, member, different⟩ := alone
    obtain ⟨d, found⟩ := innermost_exists member
    have same : d.value = call.value := by
      have found' := (innermost_cons_of_ne (Ne.symm different)).trans found
      exact pushed _ _ d call found' (innermost_head call calls)
    obtain ⟨newer, older, rfl, alike, single⟩ := layered
    refine ⟨call :: newer, older, rfl, ?_, single⟩
    have carried : ∀ c ∈ call :: newer, c.value = call.value := by
      intro c layer
      rcases List.mem_cons.mp layer with rfl | layer
      · rfl
      · cases newer with
        | nil => contradiction
        | cons head rest =>
          have first := agree _ _ head d (innermost_head head (rest ++ older)) found
          exact (alike c layer head List.mem_cons_self).trans (first.trans same)
    intro c layer e layer'
    exact (carried c layer).trans (carried e layer').symm

/-- Everything above a thread's innermost call carries its value. -/
theorem above_alike {calls : List (Frame Thread Key Value)} (layered : Layered calls)
    (agree : Agree calls) (found : innermost calls thread = some c)
    (split : calls = above ++ c :: below) (others : ∀ d ∈ above, d.thread ≠ c.thread) :
    ∀ d ∈ above, d.value = c.value := by
  obtain ⟨newer, older, parts, alike, single⟩ := layered
  intro d member
  have layer : d ∈ newer := by
    rcases List.append_eq_append_iff.mp (split.symm.trans parts) with
      ⟨middle, rfl, -⟩ | ⟨middle, rfl, rest⟩
    · exact List.mem_append_left _ member
    · rcases List.mem_append.mp member with member | below
      · exact member
      · have lower : c ∈ older := by simp [rest]
        exact absurd (single d (by simp [rest, below]) c lower) (others d (by simp [below]))
  cases newer with
  | nil => contradiction
  | cons head rest =>
    have first : head.value = c.value := by
      apply agree head.thread thread head c _ found
      rw [parts]
      exact innermost_head head (rest ++ older)
    exact (alike d layer head List.mem_cons_self).trans first

omit [DecidableEq Thread] in
theorem tail_values {call : Frame Thread Key Value} (above below : List (Frame Thread Key Value))
    (alike : ∀ d ∈ above, d.value = call.value) :
    ((above ++ call :: below).map (·.value)).tail = (above ++ below).map (·.value) := by
  cases above with
  | nil => rfl
  | cons head rest =>
    have values : rest.map (·.value) = List.replicate rest.length call.value := by
      apply List.eq_replicate_iff.mpr
      simpa using fun d member => alike d (List.mem_cons_of_mem _ member)
    simp only [List.map_append, List.map_cons, List.cons_append, List.tail_cons, values,
      alike head List.mem_cons_self]
    rw [List.append_cons, ← List.replicate_succ', List.replicate_succ, List.cons_append]

section Log
variable [DecidableEq Key]

omit [DecidableEq Thread] in
theorem pending_cons (call : Frame Thread Key Value) (calls : List (Frame Thread Key Value))
    (key : Key) : pending (call :: calls) key = pending calls key + if key = call.key then 1 else 0 := by
  have same : decide (call.key = key) = true ↔ key = call.key := by rw [decide_eq_true_eq, eq_comm]
  simp only [pending, List.countP_cons, same]

theorem pending_leave {calls : List (Frame Thread Key Value)}
    (found : innermost calls thread = some c) (key : Key) :
    pending calls key = pending (leave calls thread) key + if key = c.key then 1 else 0 := by
  obtain ⟨rfl, above, below, split, others⟩ := innermost_split found
  rw [leave_split split others, split]
  have same : decide (c.key = key) = true ↔ key = c.key := by rw [decide_eq_true_eq, eq_comm]
  simp only [pending, List.countP_append, List.countP_cons, same, Nat.add_assoc]

omit [DecidableEq Thread] in
theorem filed_cons (call : Frame Thread Key Value) (calls : List (Frame Thread Key Value)) (key : Key) :
    filed (call :: calls) key =
      if key = call.key then filed calls key ++ [call.value] else filed calls key := by
  by_cases same : key = call.key
  · simp [filed, same]
  · simp [filed, same, Ne.symm same]

omit [DecidableEq Thread] in
theorem filed_getLast? (calls : List (Frame Thread Key Value)) (key : Key) :
    (filed calls key).getLast? = (newest calls key).map (·.value) := by
  rw [filed, List.getLast?_reverse, List.head?_map, List.head?_filter, newest]

/-- Leaving a call and dropping the newest log entry under its key come to the
same. -/
theorem filed_leave {calls : List (Frame Thread Key Value)} (layered : Layered calls)
    (agree : Agree calls) (found : innermost calls thread = some c) (key : Key) :
    filed (leave calls thread) key =
      if key = c.key then (filed calls key).dropLast else filed calls key := by
  obtain ⟨rfl, above, below, split, others⟩ := innermost_split found
  have alike := above_alike layered agree found split others
  rw [leave_split split others, split]
  by_cases same : key = c.key
  · subst key
    rw [if_pos rfl, filed, filed, List.dropLast_reverse]
    congr 1
    have filtered : (above ++ c :: below).filter (·.key = c.key) =
        above.filter (·.key = c.key) ++ c :: below.filter (·.key = c.key) := by
      simp
    rw [filtered, tail_values _ _ fun d member => alike d (List.mem_of_mem_filter member),
      List.filter_append]
  · rw [if_neg same]
    simp [filed, Ne.symm same]

end Log
end Gymansie.CallStacks
