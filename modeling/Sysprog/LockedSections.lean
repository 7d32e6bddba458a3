import Mathlib.Logic.Function.Basic
import Sysprog.Execution

namespace Sysprog.LockedSections

open Execution

/-!
# Sections that run under a lock

Threads take a lock, access the data behind it one access after the other and give it back.
While one thread is in the middle of its section, threads that need other locks, or none,
go on.  The main result is that every such run has the effects of a run whose sections are
single steps: the data behind a lock are what they were when it was taken, up to the
accesses its holder has made.

The module names no program.  A component says which code a thread runs under which lock,
and what the end of a section does to the world outside the locks.
-/

/-! ## Code -/

/-- What a thread does under a lock: one access to the data after the other. -/
inductive Code (Data Result : Type) where
  | done (result : Result)
  | act (change : Data → Data) (next : Data → Code Data Result)

namespace Code

variable {Data Result Other : Type}

/-- Go on with the result of some code. -/
def bind (code : Code Data Result) (later : Result → Code Data Other) : Code Data Other :=
  match code with
  | done result => later result
  | act change next => act change fun data => (next data).bind later

instance : Monad (Code Data) where
  pure := done
  bind := bind

/-- Load something from the data. -/
def load (value : Data → Result) : Code Data Result :=
  act id fun data => done (value data)

/-- Change the data. -/
def store (change : Data → Data) : Code Data Unit :=
  act change fun _ => done ()

/-- Run all of the code without a break. -/
def run (code : Code Data Result) (data : Data) : Data × Result :=
  match code with
  | done result => (data, result)
  | act change next => (next data).run (change data)

@[simp] theorem run_done (result : Result) (data : Data) :
    (done result).run data = (data, result) :=
  rfl

@[simp] theorem run_pure (result : Result) (data : Data) :
    (pure result : Code Data Result).run data = (data, result) :=
  rfl

@[simp] theorem run_act
    (change : Data → Data)
    (next : Data → Code Data Result)
    (data : Data) :
    (act change next).run data = (next data).run (change data) :=
  rfl

@[simp] theorem run_load (value : Data → Result) (data : Data) :
    (load value).run data = (data, value data) :=
  rfl

@[simp] theorem run_store (change : Data → Data) (data : Data) :
    (store change).run data = (change data, ()) :=
  rfl

@[simp] theorem run_ite
    (condition : Prop)
    [Decidable condition]
    (first second : Code Data Result)
    (data : Data) :
    (if condition then first else second).run data =
      if condition then first.run data else second.run data := by
  split <;> rfl

/-- Code that goes on with a result runs on what the first part left. -/
theorem run_bind
    (code : Code Data Result)
    (later : Result → Code Data Other)
    (data : Data) :
    (code >>= later).run data = (later (code.run data).2).run (code.run data).1 := by
  change (code.bind later).run data = _
  induction code generalizing data with
  | done result =>
      rfl
  | act change next inductionHypothesis =>
      exact inductionHypothesis data (change data)

/-- The same where it is known what the first part does. -/
theorem run_bind_of_run
    {code : Code Data Result}
    {data after : Data}
    {result : Result}
    (ran : code.run data = (after, result))
    (later : Result → Code Data Other) :
    (code >>= later).run data = (later result).run after := by
  rw [run_bind, ran]

@[simp] theorem run_load_bind
    (value : Data → Result)
    (later : Result → Code Data Other)
    (data : Data) :
    (load value >>= later).run data = (later (value data)).run data :=
  rfl

@[simp] theorem run_store_bind
    (change : Data → Data)
    (later : Unit → Code Data Other)
    (data : Data) :
    (store change >>= later).run data = (later ()).run (change data) :=
  rfl

end Code

/-! ## Threads and locks -/

/-- What becomes of the lock when a section is over. -/
inductive Ending where
  /-- The thread goes on with its next section without giving the lock back. -/
  | stays
  /-- Leaving the section and giving the lock back are one step. -/
  | releases
  /-- The thread gives the lock back in a later step. -/
  | unlocks
  deriving Repr, DecidableEq

/--
A component with sections.  `World` is what the locks do not protect: where the threads
stand, and whatever is recorded about a run.
-/
structure Sections (Id Lock World Data Result : Type) where
  entry : World → Id → Option (Lock × Code Data Result)
  ending : Result → Ending
  Commits : World → Id → Result → World → Prop
  Elsewhere : World → Id → World → Prop

variable {Id Lock World Data Result : Type}

/-- Nothing a thread does changes the section another one is about to run. -/
structure Sections.Framed (sections : Sections Id Lock World Data Result) : Prop where
  commits :
    ∀ {world later thread other result due},
      sections.Commits world thread result later →
      other ≠ thread →
      sections.entry world other = some due →
      sections.entry later other = some due
  elsewhere :
    ∀ {world later thread other due},
      sections.Elsewhere world thread later →
      other ≠ thread →
      sections.entry world other = some due →
      sections.entry later other = some due

/-! ## Sections as single steps -/

/-- The world and the data behind the locks. -/
structure Whole (Lock World Data : Type) where
  world : World
  data : Lock → Data

variable [DecidableEq Lock]

/-- A whole section, or a step outside the sections. -/
inductive Whole.Step (sections : Sections Id Lock World Data Result) :
    Whole Lock World Data → Id → Whole Lock World Data → Prop where
  | runs
      {whole : Whole Lock World Data}
      {thread : Id}
      {lock : Lock}
      {code : Code Data Result}
      {later : World}
      (entry : sections.entry whole.world thread = some (lock, code))
      (commits :
        sections.Commits whole.world thread (code.run (whole.data lock)).2 later) :
      Whole.Step sections whole thread
        { world := later
          data := Function.update whole.data lock (code.run (whole.data lock)).1 }
  | elsewhere
      {whole : Whole Lock World Data}
      {thread : Id}
      {later : World}
      (moves : sections.Elsewhere whole.world thread later) :
      Whole.Step sections whole thread { whole with world := later }

/-! ## Sections access by access -/

/-- How far the holder of a lock has got. -/
inductive Pending (Data Result : Type) where
  | running (code : Code Data Result)
  | leaving

/-- The world, the data behind the locks and who holds them. -/
structure Fine (Id Lock World Data Result : Type) where
  world : World
  data : Lock → Data
  holder : Lock → Option (Id × Pending Data Result)

namespace Fine

/-- Nobody holds a lock. -/
def initial (whole : Whole Lock World Data) : Fine Id Lock World Data Result where
  world := whole.world
  data := whole.data
  holder := fun _ => none

/-- A thread holds no lock. -/
def Free (fine : Fine Id Lock World Data Result) (thread : Id) : Prop :=
  ∀ lock pending, fine.holder lock ≠ some (thread, pending)

/-- One access, or one step of a lock or outside of the sections. -/
inductive Step (sections : Sections Id Lock World Data Result) :
    Fine Id Lock World Data Result → Id → Fine Id Lock World Data Result → Prop where
  | enter
      {fine : Fine Id Lock World Data Result}
      {thread : Id}
      {lock : Lock}
      {code : Code Data Result}
      (free : fine.Free thread)
      (available : fine.holder lock = none)
      (entry : sections.entry fine.world thread = some (lock, code)) :
      Step sections fine thread
        { fine with
          holder := Function.update fine.holder lock (some (thread, .running code)) }
  | act
      {fine : Fine Id Lock World Data Result}
      {thread : Id}
      {lock : Lock}
      {change : Data → Data}
      {next : Data → Code Data Result}
      (holds : fine.holder lock = some (thread, .running (.act change next))) :
      Step sections fine thread
        { fine with
          data := Function.update fine.data lock (change (fine.data lock))
          holder :=
            Function.update fine.holder lock
              (some (thread, .running (next (fine.data lock)))) }
  | stay
      {fine : Fine Id Lock World Data Result}
      {thread : Id}
      {lock : Lock}
      {result : Result}
      {code : Code Data Result}
      {later : World}
      (holds : fine.holder lock = some (thread, .running (.done result)))
      (ending : sections.ending result = .stays)
      (commits : sections.Commits fine.world thread result later)
      (entry : sections.entry later thread = some (lock, code)) :
      Step sections fine thread
        { fine with
          world := later
          holder := Function.update fine.holder lock (some (thread, .running code)) }
  | release
      {fine : Fine Id Lock World Data Result}
      {thread : Id}
      {lock : Lock}
      {result : Result}
      {later : World}
      (holds : fine.holder lock = some (thread, .running (.done result)))
      (ending : sections.ending result = .releases)
      (commits : sections.Commits fine.world thread result later) :
      Step sections fine thread
        { fine with
          world := later
          holder := Function.update fine.holder lock none }
  | commit
      {fine : Fine Id Lock World Data Result}
      {thread : Id}
      {lock : Lock}
      {result : Result}
      {later : World}
      (holds : fine.holder lock = some (thread, .running (.done result)))
      (ending : sections.ending result = .unlocks)
      (commits : sections.Commits fine.world thread result later) :
      Step sections fine thread
        { fine with
          world := later
          holder := Function.update fine.holder lock (some (thread, .leaving)) }
  | unlock
      {fine : Fine Id Lock World Data Result}
      {thread : Id}
      {lock : Lock}
      (holds : fine.holder lock = some (thread, .leaving)) :
      Step sections fine thread
        { fine with holder := Function.update fine.holder lock none }
  | elsewhere
      {fine : Fine Id Lock World Data Result}
      {thread : Id}
      {later : World}
      (free : fine.Free thread)
      (moves : sections.Elsewhere fine.world thread later) :
      Step sections fine thread { fine with world := later }

/-- The holder of a lock can run its code to the end. -/
theorem reachable_done
    {sections : Sections Id Lock World Data Result}
    {start fine : Fine Id Lock World Data Result}
    {thread : Id}
    {lock : Lock}
    {code : Code Data Result}
    (reachable : Reachable (Step sections) start fine)
    (holds : fine.holder lock = some (thread, .running code)) :
    Reachable (Step sections) start
      { fine with
        data := Function.update fine.data lock (code.run (fine.data lock)).1
        holder :=
          Function.update fine.holder lock
            (some (thread, .running (.done (code.run (fine.data lock)).2))) } := by
  induction code generalizing fine with
  | done result =>
      simp only [Code.run_done]
      rw [Function.update_eq_self, ← holds, Function.update_eq_self]
      exact reachable
  | act change next inductionHypothesis =>
      have later := inductionHypothesis (fine.data lock) (reachable.next (.act holds))
        (Function.update_self lock _ fine.holder)
      simpa only [Function.update_idem, Function.update_self, Code.run_act] using later

end Fine

/-! ## The sections are atomic -/

/--
What the data behind a lock are next to what they were when it was taken: what is left of
the holder's section does to them what the whole section does to those.
-/
def Agrees
    (sections : Sections Id Lock World Data Result)
    (world : World)
    (lock : Lock)
    (before now : Data) : Option (Id × Pending Data Result) → Prop
  | some (thread, .running code) =>
      ∃ whole,
        sections.entry world thread = some (lock, whole) ∧ whole.run before = code.run now
  | _ => before = now

/-- A run access by access and the same run section by section. -/
structure Matches
    (sections : Sections Id Lock World Data Result)
    (fine : Fine Id Lock World Data Result)
    (whole : Whole Lock World Data) : Prop where
  world : whole.world = fine.world
  data :
    ∀ lock, Agrees sections fine.world lock (whole.data lock) (fine.data lock)
      (fine.holder lock)
  alone :
    ∀ {first second thread pending other},
      fine.holder first = some (thread, pending) →
      fine.holder second = some (thread, other) →
      first = second

namespace Matches

variable
  {sections : Sections Id Lock World Data Result}
  {fine : Fine Id Lock World Data Result}
  {whole : Whole Lock World Data}
  {thread : Id}
  {lock : Lock}
  {later : World}
  {now : Data}
  {held : Option (Id × Pending Data Result)}

omit [DecidableEq Lock] in
/-- The holder of a lock that goes on with it is its holder. -/
private theorem holder_eq
    {other : Id}
    {pending further : Pending Data Result}
    (held : some (thread, further) = some (other, pending)) :
    other = thread :=
  (Prod.mk.inj (Option.some.inj held)).1.symm

/-- The holder of a lock that changes hands or moves on. -/
theorem alone_update
    (matched : Matches sections fine whole)
    (own :
      ∀ {other pending},
        held = some (other, pending) →
        other = thread ∧
          (fine.Free thread ∨ ∃ former, fine.holder lock = some (thread, former)))
    {first second : Lock}
    {another : Id}
    {pending further : Pending Data Result}
    (firstHeld : Function.update fine.holder lock held first = some (another, pending))
    (secondHeld : Function.update fine.holder lock held second = some (another, further)) :
    first = second := by
  by_cases firstHere : first = lock <;> by_cases secondHere : second = lock
  · rw [firstHere, secondHere]
  · rw [firstHere, Function.update_self] at firstHeld
    rw [Function.update_of_ne secondHere] at secondHeld
    obtain ⟨rfl, free | ⟨former, before⟩⟩ := own firstHeld
    · exact (free _ _ secondHeld).elim
    · exact (secondHere (matched.alone secondHeld before)).elim
  · rw [Function.update_of_ne firstHere] at firstHeld
    rw [secondHere, Function.update_self] at secondHeld
    obtain ⟨rfl, free | ⟨former, before⟩⟩ := own secondHeld
    · exact (free _ _ firstHeld).elim
    · exact (firstHere (matched.alone firstHeld before)).elim
  · rw [Function.update_of_ne firstHere] at firstHeld
    rw [Function.update_of_ne secondHere] at secondHeld
    exact matched.alone firstHeld secondHeld

/-- A thread takes a lock, makes an access under it or gives it back. -/
theorem inside
    (matched : Matches sections fine whole)
    (thread : Id)
    (now : Data)
    (held : Option (Id × Pending Data Result))
    (own :
      ∀ {other pending},
        held = some (other, pending) →
        other = thread ∧
          (fine.Free thread ∨ ∃ former, fine.holder lock = some (thread, former)))
    (next : Agrees sections fine.world lock (whole.data lock) now held) :
    Matches sections
      { fine with
        data := Function.update fine.data lock now
        holder := Function.update fine.holder lock held }
      whole := by
  refine ⟨matched.world, ?_, matched.alone_update own⟩
  intro other
  by_cases here : other = lock
  · subst here
    simp only [Function.update_self]
    exact next
  · simp only [Function.update_of_ne here]
    exact matched.data other

omit [DecidableEq Lock] in
/-- What a thread does to the world leaves the locks alone that others hold. -/
theorem agrees_later
    {before : Data}
    (thread : Id)
    (framed :
      ∀ {other due},
        other ≠ thread →
        sections.entry fine.world other = some due →
        sections.entry later other = some due)
    (others :
      ∀ {other pending}, held = some (other, pending) → other ≠ thread)
    (agrees : Agrees sections fine.world lock before now held) :
    Agrees sections later lock before now held := by
  rcases held with _ | ⟨other, code | _⟩
  · exact agrees
  · obtain ⟨due, entry, same⟩ := agrees
    exact ⟨due, framed (others rfl) entry, same⟩
  · exact agrees

/-- The end of a section is the whole section. -/
theorem commit
    (framed : sections.Framed)
    (matched : Matches sections fine whole)
    {result : Result}
    (holds : fine.holder lock = some (thread, .running (.done result)))
    (commits : sections.Commits fine.world thread result later)
    (held : Option (Id × Pending Data Result))
    (own : ∀ {other pending}, held = some (other, pending) → other = thread)
    (next : Agrees sections later lock (fine.data lock) (fine.data lock) held) :
    ∃ after,
      Whole.Step sections whole thread after ∧
        Matches sections
          { fine with world := later, holder := Function.update fine.holder lock held }
          after := by
  have agrees := matched.data lock
  rw [holds] at agrees
  obtain ⟨code, entry, same⟩ := agrees
  rw [Code.run_done] at same
  have wholeCommits :
      sections.Commits whole.world thread (code.run (whole.data lock)).2 later := by
    rw [same, matched.world]
    exact commits
  rw [← matched.world] at entry
  refine ⟨_, .runs entry wholeCommits, rfl, ?_, ?_⟩
  · intro other
    by_cases here : other = lock
    · subst here
      simp only [Function.update_self, same]
      exact next
    · simp only [Function.update_of_ne here]
      refine agrees_later thread (framed.commits commits) ?_ (matched.data other)
      rintro another pending there rfl
      exact here (matched.alone there holds)
  · apply matched.alone_update
    intro other pending isHeld
    exact ⟨own isHeld, Or.inr ⟨_, holds⟩⟩

/-- Every step of a run access by access is a step section by section, or none. -/
theorem step
    {after : Fine Id Lock World Data Result}
    (framed : sections.Framed)
    (matched : Matches sections fine whole)
    (taken : Fine.Step sections fine thread after) :
    ∃ result,
      (result = whole ∨ Whole.Step sections whole thread result) ∧
        Matches sections after result := by
  cases taken with
  | @enter lock code free available entry =>
      have same := matched.data lock
      rw [available] at same
      have agrees :
          Agrees sections fine.world lock (whole.data lock) (fine.data lock)
            (some (thread, .running code)) :=
        ⟨code, entry, congrArg code.run same⟩
      have entered := matched.inside thread (fine.data lock) _
        (fun held => ⟨holder_eq held, Or.inl free⟩) agrees
      rw [Function.update_eq_self] at entered
      exact ⟨whole, Or.inl rfl, entered⟩
  | @act lock change next holds =>
      have agrees := matched.data lock
      rw [holds] at agrees
      exact ⟨whole, Or.inl rfl,
        matched.inside thread _ _ (fun held => ⟨holder_eq held, Or.inr ⟨_, holds⟩⟩) agrees⟩
  | @stay lock result code later holds _ commits entry =>
      have agrees :
          Agrees sections later lock (fine.data lock) (fine.data lock)
            (some (thread, .running code)) :=
        ⟨code, entry, rfl⟩
      obtain ⟨reached, moved, still⟩ :=
        matched.commit framed holds commits _ (fun held => holder_eq held) agrees
      exact ⟨reached, Or.inr moved, still⟩
  | release holds _ commits =>
      obtain ⟨reached, moved, still⟩ :=
        matched.commit framed holds commits none (by simp) rfl
      exact ⟨reached, Or.inr moved, still⟩
  | commit holds _ commits =>
      obtain ⟨reached, moved, still⟩ :=
        matched.commit framed holds commits (some (thread, .leaving))
          (fun held => holder_eq held) rfl
      exact ⟨reached, Or.inr moved, still⟩
  | @unlock lock holds =>
      have agrees := matched.data lock
      rw [holds] at agrees
      have unlocked := matched.inside thread (fine.data lock) none (by simp) agrees
      rw [Function.update_eq_self] at unlocked
      exact ⟨whole, Or.inl rfl, unlocked⟩
  | elsewhere free moves =>
      have wholeMoves := moves
      rw [← matched.world] at wholeMoves
      refine ⟨_, Or.inr (.elsewhere wholeMoves), rfl, ?_, matched.alone⟩
      intro lock
      refine agrees_later thread (framed.elsewhere moves) ?_ (matched.data lock)
      rintro other pending there rfl
      exact free _ _ there

end Matches

/-- A run access by access has the effects of a run section by section. -/
theorem exists_whole
    {sections : Sections Id Lock World Data Result}
    {start : Whole Lock World Data}
    {fine : Fine Id Lock World Data Result}
    (framed : sections.Framed)
    (reachable : Reachable (Fine.Step sections) (Fine.initial start) fine) :
    ∃ whole,
      Reachable (Whole.Step sections) start whole ∧ Matches sections fine whole := by
  have initially :
      ∃ whole,
        Reachable (Whole.Step sections) start whole ∧
          Matches sections (Fine.initial start : Fine Id Lock World Data Result) whole :=
    ⟨start, .refl, rfl, fun _ => rfl, by simp [Fine.initial]⟩
  apply reachable.invariant initially
  rintro before thread after ⟨whole, reached, matched⟩ taken
  obtain ⟨result, rfl | moved, still⟩ := matched.step framed taken
  · exact ⟨result, reached, still⟩
  · exact ⟨result, reached.next moved, still⟩

end Sysprog.LockedSections
