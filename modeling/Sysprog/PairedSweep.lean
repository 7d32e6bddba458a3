import Mathlib.Data.List.Basic
import Mathlib.Data.List.Nodup
import Mathlib.Data.List.Pairwise

namespace Sysprog.PairedSweep

/-!
# Sweeping a list whose entries leave in pairs

A list is swept from its start until an entry that is not due.  A due entry leaves
together with its mate, wherever that one stands.  The sweep has already saved the next
entry by then, so it gets lost when the mate is that entry.  This module says when that
happens and what is left otherwise.
-/

variable {Entry : Type} [DecidableEq Entry] {mate : Entry → Option Entry} {due : Entry → Bool}

/-- The sweep, with a bound on its rounds; `none` where the saved entry has left. -/
def sweep (mate : Entry → Option Entry) (due : Entry → Bool) :
    Nat → List Entry → Option (List Entry)
  | 0, _ => none
  | _ + 1, [] => some []
  | rounds + 1, entry :: rest =>
      if due entry then
        if mate entry ≠ none ∧ mate entry = rest.head? then
          none
        else
          sweep mate due rounds (rest.filter fun other => mate entry ≠ some other)
      else
        some (entry :: rest)

/-- The entry or its mate is due. -/
def doomed (mate : Entry → Option Entry) (due : Entry → Bool) (entry : Entry) : Bool :=
  due entry || (mate entry).any due

/--
Between a due entry and its mate behind it stands one whose own mate does not stand before
the entry.
-/
def Separated (mate : Entry → Option Entry) (due : Entry → Bool) (entries : List Entry) :
    Prop :=
  ∀ front entry middle other back,
    entries = front ++ entry :: (middle ++ other :: back) →
    due entry = true →
    mate entry = some other →
    ∃ between ∈ middle, ∀ before ∈ front, mate between ≠ some before

/-- Mates name each other, and none is its own mate. -/
structure Mated (mate : Entry → Option Entry) : Prop where
  symmetric : ∀ x y, mate x = some y → mate y = some x
  apart : ∀ x, mate x ≠ some x

section Separation

variable {entry : Entry} {rest : List Entry}

omit [DecidableEq Entry] in
/-- Where the first entry is not due and due entries come first, nothing is due. -/
theorem separated_of_not_due
    (ordered : (entry :: rest).Pairwise fun first second => due second = true → due first = true)
    (notDue : due entry = false) :
    Separated mate due (entry :: rest) := by
  intro front first middle other back shape isDue
  have dueEntry : due entry = true := by
    cases front with
    | nil =>
        obtain ⟨rfl, _⟩ := List.cons.inj shape
        exact isDue
    | cons head tail =>
        obtain ⟨rfl, rfl⟩ := List.cons.inj shape
        exact (List.pairwise_cons.mp ordered).1 first (by simp) isDue
  simp [notDue] at dueEntry

omit [DecidableEq Entry] in
/-- The mate of the first entry is not the next one. -/
theorem Separated.not_next
    (separated : Separated mate due (entry :: rest))
    (isDue : due entry = true)
    (present : mate entry ≠ none) :
    mate entry ≠ rest.head? := by
  intro next
  obtain ⟨other, isMate⟩ := Option.ne_none_iff_exists'.mp present
  rw [isMate] at next
  obtain ⟨back, rfl⟩ := List.head?_eq_some_iff.mp next.symm
  obtain ⟨between, member, _⟩ := separated [] entry [] other back rfl isDue isMate
  simp at member

/-- What is separated stays so without the first entry and its mate. -/
theorem Separated.onward
    (mated : Mated mate)
    (separated : Separated mate due (entry :: rest)) :
    Separated mate due (rest.filter fun other => mate entry ≠ some other) := by
  intro front first middle other back shape firstDue isMate
  obtain ⟨before, fromFirst, rfl, rfl, keptFirst⟩ := List.filter_eq_append_iff.mp shape
  obtain ⟨skipped, behind, rfl, dropped, _, keptBehind⟩ :=
    List.filter_eq_cons_iff.mp keptFirst
  obtain ⟨inner, fromOther, rfl, rfl, keptOther⟩ := List.filter_eq_append_iff.mp keptBehind
  obtain ⟨skipped', behind, rfl, dropped', _, rfl⟩ := List.filter_eq_cons_iff.mp keptOther
  obtain ⟨between, member, apart⟩ :=
    separated (entry :: (before ++ skipped)) first (inner ++ skipped') other behind
      (by simp) firstDue isMate
  have kept : mate entry ≠ some between := by
    intro same
    exact apart entry (by simp) (mated.symmetric _ _ same)
  have inside : between ∈ inner := by
    rcases List.mem_append.mp member with inner | skipped
    · exact inner
    · simpa [kept] using dropped' between skipped
  refine ⟨between, List.mem_filter.mpr ⟨inside, by simpa using kept⟩, ?_⟩
  intro one oneBefore
  exact apart one (by simp [List.mem_of_mem_filter oneBefore])

/-- What is separated without the first entry and its mate is so with them. -/
theorem Separated.cons
    (mated : Mated mate)
    (fresh : entry ∉ rest)
    (notNext : mate entry ≠ none → mate entry ≠ rest.head?)
    (separated : Separated mate due (rest.filter fun other => mate entry ≠ some other)) :
    Separated mate due (entry :: rest) := by
  intro front first middle other back shape firstDue isMate
  cases front with
  | nil =>
      obtain ⟨rfl, rfl⟩ := List.cons.inj shape
      cases middle with
      | nil => exact absurd (by simp [isMate]) (notNext (by simp [isMate]))
      | cons between _ => exact ⟨between, by simp, by simp⟩
  | cons head front =>
      obtain ⟨rfl, rfl⟩ := List.cons.inj shape
      have firstKept : mate entry ≠ some first := by
        intro same
        have back := mated.symmetric _ _ same
        rw [isMate] at back
        obtain rfl := Option.some.inj back
        exact fresh (by simp)
      have otherKept : mate entry ≠ some other := by
        intro same
        have back := mated.symmetric _ _ same
        rw [mated.symmetric _ _ isMate] at back
        obtain rfl := Option.some.inj back
        exact fresh (by simp)
      obtain ⟨between, member, apart⟩ :=
        separated (front.filter fun other => mate entry ≠ some other) first
          (middle.filter fun other => mate entry ≠ some other) other
          (back.filter fun other => mate entry ≠ some other)
          (by simp [List.filter_append, firstKept, otherKept]) firstDue isMate
      obtain ⟨inside, betweenKept⟩ := List.mem_filter.mp member
      refine ⟨between, inside, ?_⟩
      intro one oneBefore same
      rcases List.mem_cons.mp oneBefore with rfl | inFront
      · have := mated.symmetric _ _ same
        simp [this] at betweenKept
      · refine apart one (List.mem_filter.mpr ⟨inFront, ?_⟩) same
        simp only [decide_eq_true_eq]
        intro isMateOfEntry
        have first := mated.symmetric _ _ same
        rw [mated.symmetric _ _ isMateOfEntry] at first
        obtain rfl := Option.some.inj first
        exact fresh (by simp [inside])

/-- Entries are found in a list from which the mate of the first one is taken out. -/
theorem separated_cons_iff
    (mated : Mated mate)
    (fresh : entry ∉ rest)
    (isDue : due entry = true) :
    Separated mate due (entry :: rest) ↔
      (mate entry ≠ none → mate entry ≠ rest.head?) ∧
        Separated mate due (rest.filter fun other => mate entry ≠ some other) :=
  ⟨fun separated => ⟨separated.not_next isDue, separated.onward mated⟩,
    fun ⟨notNext, separated⟩ => separated.cons mated fresh notNext⟩

end Separation

/-! ## What a sweep leaves -/

/-- A list to sweep: due entries come first, and it holds the mates of its entries. -/
structure Sweepable
    (mate : Entry → Option Entry)
    (due : Entry → Bool)
    (entries : List Entry) : Prop where
  nodup : entries.Nodup
  ordered : entries.Pairwise fun first second => due second = true → due first = true
  closed : ∀ x ∈ entries, ∀ y, mate x = some y → y ∈ entries

section Results

variable {entry : Entry} {rest entries : List Entry} {rounds : Nat}

/-- What is left after the first entry and its mate have left can be swept on. -/
theorem Sweepable.onward
    (sweepable : Sweepable mate due (entry :: rest))
    (mated : Mated mate) :
    Sweepable mate due (rest.filter fun other => mate entry ≠ some other) where
  nodup := (List.nodup_cons.mp sweepable.nodup).2.filter _
  ordered := (List.pairwise_cons.mp sweepable.ordered).2.filter _
  closed := by
    intro x member y isMate
    obtain ⟨inside, kept⟩ := List.mem_filter.mp member
    have back := mated.symmetric _ _ isMate
    rcases List.mem_cons.mp (sweepable.closed x (by simp [inside]) y isMate) with rfl | inRest
    · simp [back] at kept
    · refine List.mem_filter.mpr ⟨inRest, ?_⟩
      simp only [decide_eq_true_eq]
      intro same
      obtain rfl : entry = x := by
        have other := mated.symmetric _ _ same
        rw [back] at other
        exact (Option.some.inj other).symm
      exact (List.nodup_cons.mp sweepable.nodup).1 inside

omit [DecidableEq Entry] in
/-- Where the first entry is not due, none has to leave. -/
theorem Sweepable.doomed_eq_false
    (sweepable : Sweepable mate due (entry :: rest))
    (notDue : due entry = false)
    {other : Entry}
    (member : other ∈ entry :: rest) :
    doomed mate due other = false := by
  have none (one : Entry) (inside : one ∈ entry :: rest) : due one = false := by
    rcases List.mem_cons.mp inside with rfl | inRest
    · exact notDue
    · rw [Bool.eq_false_iff]
      intro isDue
      have := (List.pairwise_cons.mp sweepable.ordered).1 one inRest isDue
      simp [notDue] at this
  cases isMate : mate other with
  | none => simp [doomed, isMate, none other member]
  | some one =>
      simp [doomed, isMate, none other member, none one (sweepable.closed other member one isMate)]

/-- Where due entries and their mates are separated, exactly they leave. -/
theorem sweep_of_separated
    (mated : Mated mate)
    (sweepable : Sweepable mate due entries)
    (separated : Separated mate due entries)
    (enough : entries.length < rounds) :
    sweep mate due rounds entries = some (entries.filter fun entry => !doomed mate due entry) := by
  induction rounds generalizing entries with
  | zero => omega
  | succ rounds inductionHypothesis =>
      cases entries with
      | nil => rfl
      | cons entry rest =>
          by_cases isDue : due entry = true
          · obtain ⟨notNext, onward⟩ :=
              (separated_cons_iff mated (List.nodup_cons.mp sweepable.nodup).1 isDue).mp separated
            have shorter := List.length_filter_le (fun other => mate entry ≠ some other) rest
            have swept := inductionHypothesis (sweepable.onward mated) onward
              (by simp only [List.length_cons] at enough; omega)
            have leaves : doomed mate due entry = true := by
              simp [doomed, isDue]
            rw [sweep, if_pos isDue, if_neg (by tauto), swept, List.filter_filter]
            simp only [List.filter_cons, leaves, Bool.not_true, Bool.false_eq_true, if_false,
              Option.some.injEq]
            refine List.filter_congr ?_
            intro other _
            by_cases isMate : mate entry = some other
            · simp [doomed, mated.symmetric _ _ isMate, isDue]
            · simp [isMate]
          · rw [sweep, if_neg isDue, Option.some.injEq, eq_comm, List.filter_eq_self]
            intro other member
            simp [sweepable.doomed_eq_false (Bool.eq_false_iff.mpr isDue) member]

/-- Otherwise the sweep loses its place. -/
theorem sweep_of_not_separated
    (mated : Mated mate)
    (sweepable : Sweepable mate due entries)
    (close : ¬ Separated mate due entries)
    (enough : entries.length < rounds) :
    sweep mate due rounds entries = none := by
  induction rounds generalizing entries with
  | zero => omega
  | succ rounds inductionHypothesis =>
      cases entries with
      | nil =>
          refine absurd ?_ close
          intro front entry middle other back shape
          simp at shape
      | cons entry rest =>
          by_cases isDue : due entry = true
          · rw [separated_cons_iff mated (List.nodup_cons.mp sweepable.nodup).1 isDue] at close
            have shorter := List.length_filter_le (fun other => mate entry ≠ some other) rest
            by_cases next : mate entry ≠ none ∧ mate entry = rest.head?
            · rw [sweep, if_pos isDue, if_pos next]
            · rw [sweep, if_pos isDue, if_neg next]
              refine inductionHypothesis (sweepable.onward mated) ?_ ?_
              · intro onward
                exact close ⟨by tauto, onward⟩
              · simp only [List.length_cons] at enough
                omega
          · exact absurd
              (separated_of_not_due sweepable.ordered (Bool.eq_false_iff.mpr isDue)) close

end Results

end Sysprog.PairedSweep
