import Sysprog.BuddyOperations

namespace Sysprog.Buddy

open CircularList DyadicBlocks Block Execution MachineWord

/-!
# Programs on the buddy allocator

In every reachable state the free lists and the live blocks tile the address range, and
the stored bits tell which halves of the tree are free.
-/

variable
  {platform : Platform}
  {answers : Brk}
  {world : World}
  {state : State}
  {lists : Nat → List Nat}

/-! ## Live blocks -/

/-- The block behind a live pointer. -/
def liveBlock (platform : Platform) (ptr request : Nat) : Block where
  exponent := 31 - requestBucket request
  index := (ptr - 8 - platform.programBreak) / 2 ^ (31 - requestBucket request)

/-- All live blocks. -/
def liveBlocks (platform : Platform) (live : Nat → Option Nat) : Set Block :=
  { block | ∃ ptr request, live ptr = some request ∧ block = liveBlock platform ptr request }

/-- Live pointers point behind a header that says what was asked for. -/
def PointersMatch (platform : Platform) (world : World) : Prop :=
  ∀ ptr request,
    world.live ptr = some request →
      ptr = platform.programBreak + (liveBlock platform ptr request).start + 8 ∧
        world.state.cells.prev (ptr - 8) = request

/-- The allocator before its first successful size check. -/
structure Untouched (world : World) : Prop where
  base : world.state.basePtr = 0
  live : ∀ ptr, world.live ptr = none
  clear : ∀ index, splitBitAt world.state index = false
  removals : world.state.removals = []

/-- The allocator once it is set up. -/
structure Represented (platform : Platform) (world : World) : Prop where
  heap : ∃ lists, Consistent platform world.state lists (liveBlocks platform world.live)
  pointers : PointersMatch platform world

/-- What holds in every reachable state. -/
def Invariant (platform : Platform) (world : World) : Prop :=
  Untouched world ∨ Represented platform world

theorem liveBlock_of_start
    {block : Block}
    {request : Nat}
    (size : block.exponent = 31 - requestBucket request) :
    liveBlock platform (platform.programBreak + block.start + 8) request = block := by
  obtain ⟨exponent, index⟩ := block
  simp only at size
  have offset : platform.programBreak + (⟨exponent, index⟩ : Block).start + 8 - 8 -
      platform.programBreak = (⟨exponent, index⟩ : Block).start := by omega
  rw [liveBlock, offset, ← size, start]
  simp

/-- Nothing is live before the first allocation. -/
theorem liveBlocks_empty
    {live : Nat → Option Nat}
    (nothing : ∀ ptr, live ptr = none) :
    liveBlocks platform live = ∅ := by
  ext block
  simp [liveBlocks, nothing]

/-- A new live pointer adds its block. -/
theorem liveBlocks_update_some
    {live : Nat → Option Nat}
    {ptr request : Nat}
    (fresh : live ptr = none) :
    liveBlocks platform (Function.update live ptr (some request)) =
      insert (liveBlock platform ptr request) (liveBlocks platform live) := by
  ext block
  simp only [liveBlocks, Set.mem_ofPred_eq, Set.mem_insert_iff]
  constructor
  · rintro ⟨other, asked, isLive, rfl⟩
    by_cases same : other = ptr
    · subst same
      rw [Function.update_self] at isLive
      obtain rfl := Option.some.inj isLive
      exact Or.inl rfl
    · rw [Function.update_of_ne same] at isLive
      exact Or.inr ⟨other, asked, isLive, rfl⟩
  · rintro (rfl | ⟨other, asked, isLive, rfl⟩)
    · exact ⟨ptr, request, Function.update_self _ _ _, rfl⟩
    · refine ⟨other, asked, ?_, rfl⟩
      rw [Function.update_of_ne, isLive]
      rintro rfl
      rw [fresh] at isLive
      simp at isLive

/-- Taking one live pointer away takes its block away. -/
theorem PointersMatch.liveBlocks_update_none
    {ptr request : Nat}
    (pointers : PointersMatch platform world)
    (isLive : world.live ptr = some request) :
    liveBlocks platform world.live =
        insert (liveBlock platform ptr request)
          (liveBlocks platform (Function.update world.live ptr none)) ∧
      liveBlock platform ptr request ∉
        liveBlocks platform (Function.update world.live ptr none) := by
  constructor
  · ext block
    simp only [liveBlocks, Set.mem_ofPred_eq, Set.mem_insert_iff]
    constructor
    · rintro ⟨other, asked, otherLive, rfl⟩
      by_cases same : other = ptr
      · subst same
        obtain rfl := Option.some.inj (otherLive.symm.trans isLive)
        exact Or.inl rfl
      · exact Or.inr ⟨other, asked, by rw [Function.update_of_ne same, otherLive], rfl⟩
    · rintro (rfl | ⟨other, asked, otherLive, rfl⟩)
      · exact ⟨ptr, request, isLive, rfl⟩
      · by_cases same : other = ptr
        · subst same
          simp at otherLive
        · rw [Function.update_of_ne same] at otherLive
          exact ⟨other, asked, otherLive, rfl⟩
  · rintro ⟨other, asked, otherLive, equal⟩
    have different : other ≠ ptr := by
      rintro rfl
      simp at otherLive
    rw [Function.update_of_ne different] at otherLive
    have first := (pointers ptr request isLive).1
    have second := (pointers other asked otherLive).1
    rw [equal] at first
    omega

/-! ## Steps -/

/-- Live pointers keep their headers as long as their blocks are kept. -/
theorem PointersMatch.keep
    {after : State}
    (pointers : PointersMatch platform world)
    (base : world.state.basePtr = platform.programBreak)
    (kept : Keeps (liveBlocks platform world.live) world.state after) :
    PointersMatch platform { world with state := after } := by
  intro ptr request isLive
  obtain ⟨address, header⟩ := pointers ptr request isLive
  refine ⟨address, ?_⟩
  have same := kept.2 _ ⟨ptr, request, isLive, rfl⟩
  have cell : world.state.basePtr + (liveBlock platform ptr request).start = ptr - 8 := by
    omega
  rw [cell] at same
  exact same.trans header

/-- A new block is not behind a live pointer. -/
theorem PointersMatch.notLive
    {after : State}
    {block : Block}
    {ptr : Nat}
    (pointers : PointersMatch platform world)
    (heap : Consistent platform after lists (insert block (liveBlocks platform world.live)))
    (fresh : block ∉ liveBlocks platform world.live)
    (address : ptr = platform.programBreak + block.start + 8) :
    world.live ptr = none := by
  cases isLive : world.live ptr with
  | none => rfl
  | some asked =>
      have other := (pointers ptr asked isLive).1
      have inUse : liveBlock platform ptr asked ∈ liveBlocks platform world.live :=
        ⟨ptr, asked, isLive, rfl⟩
      have equal := heap.startsApart _ (Or.inr (Or.inr inUse)) block (Or.inr (Or.inl rfl))
        (by omega)
      exact absurd (equal ▸ inUse) fresh

/-- The world after a call of `bmalloc` that does as it should. -/
theorem represented_of_allocates
    {request : Nat}
    {result : Option Nat × State}
    (consistent : Consistent platform world.state lists (liveBlocks platform world.live))
    (pointers : PointersMatch platform world)
    (allocates :
      Allocates platform world.state (liveBlocks platform world.live) request
        (31 - requestBucket request) result) :
    Represented platform (world.returned request result) := by
  have base := consistent.base
  obtain ⟨ptr, after⟩ := result
  cases ptr with
  | none =>
      obtain ⟨heap, kept⟩ := allocates
      exact ⟨heap, pointers.keep base kept⟩
  | some ptr =>
      obtain ⟨block, size, fresh, address, header, ⟨filled, heap⟩, kept⟩ := allocates
      rw [base] at address header
      have own : liveBlock platform ptr request = block := by
        rw [address]
        exact liveBlock_of_start size
      have notLive := pointers.notLive heap fresh address
      refine ⟨⟨filled, ?_⟩, ?_⟩
      · simp only [World.returned]
        rw [liveBlocks_update_some notLive, own]
        exact heap
      · intro other asked isLive
        simp only [World.returned] at isLive ⊢
        by_cases same : other = ptr
        · subst same
          simp only [Function.update_self, Option.some.injEq] at isLive
          subst isLive
          refine ⟨by rw [own]; exact address, ?_⟩
          rw [address, Nat.add_sub_cancel]
          exact header
        · simp only [Function.update_of_ne same] at isLive
          exact pointers.keep base kept other asked isLive

/-- `bmalloc` keeps the invariant. -/
theorem Invariant.afterMalloc
    (invariant : Invariant platform world)
    (request : Nat) :
    Invariant platform (world.afterMalloc platform answers request) := by
  rcases invariant with untouched | ⟨⟨lists, consistent⟩, pointers⟩
  · by_cases tooLarge : add request 8 > 2 ^ 31
    · left
      rw [World.afterMalloc, bmalloc, if_pos tooLarge]
      exact untouched
    · right
      have consistent :
          Consistent platform (initialise platform answers.first world.state) (rootLists 4)
            (liveBlocks platform world.live) := by
        rw [liveBlocks_empty untouched.live]
        exact consistent_initialise untouched.clear untouched.removals
      have started : bmalloc platform answers world.state request =
          search platform answers.later request (requestBucket request) (requestBucket request)
            (initialise platform answers.first world.state) := by
        rw [bmalloc, if_neg tooLarge]
        simp only [untouched.base, if_true]
        rfl
      have pointers : PointersMatch platform
          { world with state := initialise platform answers.first world.state } := by
        intro ptr asked isLive
        simp [untouched.live] at isLive
      rw [World.afterMalloc, started]
      exact @represented_of_allocates _
        { world with state := initialise platform answers.first world.state } _ _ _ consistent
        pointers (consistent.search (bucketForRequest_le _))
  · right
    exact represented_of_allocates consistent pointers (consistent.bmalloc request)

/-- `bmalloc` returns no pointer that is live. -/
theorem Invariant.bmalloc_fresh
    {request ptr : Nat}
    {after : State}
    (invariant : Invariant platform world)
    (returned : bmalloc platform answers world.state request = (some ptr, after)) :
    world.live ptr = none := by
  rcases invariant with untouched | ⟨⟨lists, consistent⟩, pointers⟩
  · exact untouched.live ptr
  · have allocates := @Consistent.bmalloc _ _ _ _ answers consistent request
    rw [returned] at allocates
    obtain ⟨block, _, fresh, address, _, ⟨_, heap⟩, _⟩ := allocates
    rw [consistent.base] at address
    exact pointers.notLive heap fresh address

/-- `bfree` of a null pointer or a live one keeps the invariant. -/
theorem Invariant.afterFree
    {ptr : Option Nat}
    (invariant : Invariant platform world)
    (allowed : ∀ address, ptr = some address → (world.live address).isSome) :
    Invariant platform (world.afterFree platform ptr) := by
  cases ptr with
  | none =>
      exact invariant
  | some ptr =>
      obtain ⟨request, isLive⟩ := Option.isSome_iff_exists.mp (allowed ptr rfl)
      rcases invariant with untouched | ⟨⟨lists, consistent⟩, pointers⟩
      · rw [untouched.live] at isLive
        simp at isLive
      · right
        have base := consistent.base
        obtain ⟨address, header⟩ := pointers ptr request isLive
        obtain ⟨shape, inHand⟩ := pointers.liveBlocks_update_none isLive
        have cell : world.state.basePtr + (liveBlock platform ptr request).start = ptr - 8 := by
          omega
        rw [shape] at consistent
        obtain ⟨heap, kept⟩ := consistent.bfree inHand
          (show ptr = world.state.basePtr + (liveBlock platform ptr request).start + 8 by omega)
          (by rw [cell]; exact header) rfl
        refine ⟨heap, ?_⟩
        intro other asked otherLive
        have different : other ≠ ptr := by
          rintro rfl
          simp [World.afterFree] at otherLive
        have before : world.live other = some asked := by
          simpa [World.afterFree, Function.update_of_ne different] using otherLive
        obtain ⟨otherAddress, otherHeader⟩ := pointers other asked before
        refine ⟨otherAddress, ?_⟩
        have same := kept.2 (liveBlock platform other asked) ⟨other, asked, otherLive, rfl⟩
        rw [show world.state.basePtr + (liveBlock platform other asked).start = other - 8 by omega]
          at same
        exact same.trans otherHeader

/-- Writes of the program to its own blocks keep the invariant. -/
theorem Invariant.afterWrite
    {ptr request : Nat}
    {cells : Links Nat}
    (invariant : Invariant platform world)
    (writes : WritesInside world ptr cells request) :
    Invariant platform { world with state := { world.state with cells := cells } } := by
  rcases invariant with untouched | ⟨⟨lists, consistent⟩, pointers⟩
  · have isLive := writes.live
    rw [untouched.live] at isLive
    simp at isLive
  right
  have base := consistent.base
  have limit := consistent.limit
  obtain ⟨address, header⟩ := pointers ptr request writes.live
  have inUse : liveBlock platform ptr request ∈ liveBlocks platform world.live :=
    ⟨ptr, request, writes.live, rfl⟩
  -- The words outside of the block written to are kept.
  have kept : ∀ other ∈ freeBlocks lists ∪ liveBlocks platform world.live,
      other ≠ liveBlock platform ptr request →
      cells.prev (platform.programBreak + other.start) =
          world.state.cells.prev (platform.programBreak + other.start) ∧
        cells.next (platform.programBreak + other.start) =
          world.state.cells.next (platform.programBreak + other.start) := by
    intro other member different
    apply writes.outside
    by_contra inside
    apply different
    refine consistent.heap.tiles.unique other.start other member _ (Or.inr inUse)
      other.holds_start ?_
    rw [holds_iff_range]
    simp only [liveBlock] at address ⊢
    omega
  have notWritten : ∀ other ∈ freeBlocks lists, other ≠ liveBlock platform ptr request := by
    rintro other inFree rfl
    exact consistent.heap.not_free_of_used inUse inFree
  have sameCells : ∀ exponent, 4 ≤ exponent → exponent ≤ 31 - world.state.bucketLimit →
      ∀ cell ∈ bucketHead platform (31 - exponent) ::
          entries world.state.basePtr lists exponent,
        cells.prev cell = world.state.cells.prev cell ∧
          cells.next cell = world.state.cells.next cell := by
    intro exponent atLeast _ cell member
    rcases List.mem_cons.mp member with rfl | inList
    · have head := bucketHead_lt platform (show 31 - exponent ≤ 27 by omega)
      exact writes.outside _ (Or.inl (by omega))
    · obtain ⟨index, inFree, rfl⟩ := mem_entries.mp inList
      rw [base]
      exact kept _ (Or.inl inFree) (notWritten _ inFree)
  refine ⟨⟨lists, base, limit, consistent.heap, consistent.smallest, ?_, consistent.bits.congr rfl,
    consistent.removals⟩, ?_⟩
  · intro exponent atLeast atMost
    exact (consistent.rings exponent atLeast atMost).congr
      (fun cell member => (sameCells exponent atLeast atMost cell member).1)
      (fun cell member => (sameCells exponent atLeast atMost cell member).2)
  · intro other asked isLive
    obtain ⟨otherAddress, otherHeader⟩ := pointers other asked isLive
    refine ⟨otherAddress, ?_⟩
    by_cases same : liveBlock platform other asked = liveBlock platform ptr request
    · obtain rfl : other = ptr := by
        rw [same] at otherAddress
        omega
      exact writes.header.trans otherHeader
    · have unchanged := (kept _ (Or.inr ⟨other, asked, isLive, rfl⟩) same).1
      rw [show platform.programBreak + (liveBlock platform other asked).start = other - 8 by omega]
        at unchanged
      exact unchanged.trans otherHeader

/-- Every step keeps the invariant. -/
theorem Invariant.step
    {op : Op}
    {after : World}
    (invariant : Invariant platform world)
    (step : Step platform world op after) :
    Invariant platform after := by
  cases op with
  | bmalloc request answers =>
      obtain ⟨_, rfl⟩ := step
      exact invariant.afterMalloc request
  | bfree ptr =>
      obtain ⟨allowed, rfl⟩ := step
      exact invariant.afterFree allowed
  | write ptr cells =>
      obtain ⟨⟨request, writes⟩, rfl⟩ := step
      exact invariant.afterWrite writes

theorem invariant_initial (memory : Links Nat) : Invariant platform (World.initial memory) := by
  left
  refine ⟨rfl, fun _ => rfl, ?_, rfl⟩
  intro index
  simp [splitBitAt, World.initial]

/-- The invariant holds in every reachable state. -/
theorem invariant_reachable
    {memory : Links Nat}
    (reachable : Reachable (Step platform) (World.initial memory) world) :
    Invariant platform world :=
  reachable.invariant (invariant_initial memory) fun invariant step => invariant.step step

/-- A state whose `base_ptr` is set represents a heap. -/
theorem represented_of_reachable
    {memory : Links Nat}
    (reachable : Reachable (Step platform) (World.initial memory) world)
    (setUp : world.state.basePtr ≠ 0) :
    Represented platform world := by
  rcases invariant_reachable reachable with untouched | represented
  · exact absurd untouched.base setUp
  · exact represented

/-! ## The tiling -/

/-- What a byte of the address range can belong to. -/
inductive Owner where
  | free (bucket entry : Nat)
  | live (ptr : Nat)

/-- The byte belongs to an entry of a free list, or to a live block. -/
def Owns (world : World) (freeLists : Nat → List Nat) (byte : Nat) : Owner → Prop
  | .free bucket entry =>
      world.state.bucketLimit ≤ bucket ∧
        bucket ≤ 27 ∧
        entry ∈ freeLists bucket ∧
        entry ≤ byte ∧
        byte < entry + 2 ^ (31 - bucket)
  | .live ptr =>
      ∃ request,
        world.live ptr = some request ∧
          ptr - 8 ≤ byte ∧
          byte < ptr - 8 + 2 ^ (31 - bucketForRequest (add request 8))

/-- Every owner of a byte is a block of the heap that holds it. -/
theorem Represented.block_of_owns
    {byte : Nat}
    {owner : Owner}
    (represented : Represented platform world)
    (consistent : Consistent platform world.state lists (liveBlocks platform world.live))
    (owns :
      Owns world (fun bucket => entries world.state.basePtr lists (31 - bucket)) byte owner) :
    ∃ block : Block,
      world.state.basePtr ≤ byte ∧
        block.Holds (byte - world.state.basePtr) ∧
        ((block ∈ freeBlocks lists ∧
            owner = .free (31 - block.exponent) (world.state.basePtr + block.start)) ∨
          (block ∈ liveBlocks platform world.live ∧
            owner = .live (world.state.basePtr + block.start + 8))) := by
  have base := consistent.base
  cases owner with
  | free bucket entry =>
      obtain ⟨_, atMost, member, atLeast, below⟩ := owns
      obtain ⟨index, inFree, rfl⟩ := mem_entries.mp member
      refine ⟨⟨31 - bucket, index⟩, by omega, ?_, Or.inl ⟨inFree, ?_⟩⟩
      · rw [holds_iff_range]
        simp only at below ⊢
        omega
      · simp only [Nat.sub_sub_self (show bucket ≤ 31 by omega)]
  | live ptr =>
      obtain ⟨request, isLive, atLeast, below⟩ := owns
      have address := (represented.pointers ptr request isLive).1
      refine ⟨liveBlock platform ptr request, by omega, ?_,
        Or.inr ⟨⟨ptr, request, isLive, rfl⟩, by rw [base, ← address]⟩⟩
      rw [holds_iff_range]
      simp only [liveBlock, requestBucket] at address ⊢
      omega

/-- Every block of the heap owns the bytes it holds. -/
theorem Represented.owns_of_block
    {byte : Nat}
    {block : Block}
    (represented : Represented platform world)
    (consistent : Consistent platform world.state lists (liveBlocks platform world.live))
    (member : block ∈ freeBlocks lists ∪ liveBlocks platform world.live)
    (atLeast : world.state.basePtr ≤ byte)
    (holds : block.Holds (byte - world.state.basePtr)) :
    ∃ owner,
      Owns world (fun bucket => entries world.state.basePtr lists (31 - bucket)) byte owner := by
  have base := consistent.base
  have limit := consistent.limit
  have bounds := consistent.exponent_bounds member
  obtain ⟨above, below⟩ := holds_iff_range.mp holds
  rcases member with inFree | ⟨ptr, request, isLive, rfl⟩
  · refine ⟨.free (31 - block.exponent) (world.state.basePtr + block.start), by omega, by omega,
      ?_, by omega, ?_⟩
    · simp only [Nat.sub_sub_self (show block.exponent ≤ 31 by omega)]
      exact mem_entries.mpr ⟨block.index, inFree, rfl⟩
    · rw [Nat.sub_sub_self (show block.exponent ≤ 31 by omega)]
      omega
  · have address := (represented.pointers ptr request isLive).1
    refine ⟨.live ptr, request, isLive, by omega, ?_⟩
    simp only [liveBlock, requestBucket] at address below ⊢
    omega

/-- The bytes that have an owner are those of the root. -/
theorem Represented.owned_iff
    {byte : Nat}
    (represented : Represented platform world)
    (consistent : Consistent platform world.state lists (liveBlocks platform world.live)) :
    (∃ owner,
        Owns world (fun bucket => entries world.state.basePtr lists (31 - bucket)) byte owner) ↔
      world.state.basePtr ≤ byte ∧
        byte < world.state.basePtr + 2 ^ (31 - world.state.bucketLimit) := by
  constructor
  · rintro ⟨owner, owns⟩
    obtain ⟨block, atLeast, holds, kind⟩ := represented.block_of_owns consistent owns
    have member : block ∈ freeBlocks lists ∪ liveBlocks platform world.live := by
      rcases kind with ⟨inFree, _⟩ | ⟨inUse, _⟩
      · exact Or.inl inFree
      · exact Or.inr inUse
    have below := holds_root.mp ((consistent.heap.tiles.within block member).holds holds)
    omega
  · rintro ⟨atLeast, below⟩
    obtain ⟨block, member, holds⟩ :=
      consistent.heap.tiles.covers (byte - world.state.basePtr) (by omega)
    exact represented.owns_of_block consistent member atLeast holds

/-- No byte has two owners. -/
theorem Represented.owner_unique
    {byte : Nat}
    {first second : Owner}
    (represented : Represented platform world)
    (consistent : Consistent platform world.state lists (liveBlocks platform world.live))
    (firstOwns :
      Owns world (fun bucket => entries world.state.basePtr lists (31 - bucket)) byte first)
    (secondOwns :
      Owns world (fun bucket => entries world.state.basePtr lists (31 - bucket)) byte second) :
    first = second := by
  obtain ⟨block, _, holds, kind⟩ := represented.block_of_owns consistent firstOwns
  obtain ⟨other, _, otherHolds, otherKind⟩ := represented.block_of_owns consistent secondOwns
  have same : ∀ {inner outer}, inner ∈ freeBlocks lists ∪ liveBlocks platform world.live →
      outer ∈ freeBlocks lists ∪ liveBlocks platform world.live →
      inner.Holds (byte - world.state.basePtr) → outer.Holds (byte - world.state.basePtr) →
      inner = outer :=
    fun innerMember outerMember =>
      consistent.heap.tiles.unique _ _ innerMember _ outerMember
  rcases kind with ⟨inFree, rfl⟩ | ⟨inUse, rfl⟩
  · rcases otherKind with ⟨otherFree, rfl⟩ | ⟨otherUsed, rfl⟩
    · rw [same (Or.inl inFree) (Or.inl otherFree) holds otherHolds]
    · have equal := same (Or.inl inFree) (Or.inr otherUsed) holds otherHolds
      exact absurd (equal ▸ inFree) (consistent.heap.not_free_of_used otherUsed)
  · rcases otherKind with ⟨otherFree, rfl⟩ | ⟨otherUsed, rfl⟩
    · have equal := same (Or.inr inUse) (Or.inl otherFree) holds otherHolds
      exact absurd otherFree (equal ▸ consistent.heap.not_free_of_used inUse)
    · rw [same (Or.inr inUse) (Or.inr otherUsed) holds otherHolds]

/-- A small process image. -/
def samplePlatform : Platform where
  buckets := 4096
  programBreak := 8192
  behind := by decide
  room := by decide

/-- The world after one request that `brk` grants. -/
def sampleWorld : World :=
  (World.initial ⟨fun _ => 0, fun _ => 0⟩).afterMalloc samplePlatform (.ofAddress fun _ => true) 24

theorem sampleWorld_reachable :
    Reachable (Step samplePlatform) (World.initial ⟨fun _ => 0, fun _ => 0⟩) sampleWorld := by
  have step : Step samplePlatform (World.initial ⟨fun _ => 0, fun _ => 0⟩)
      (.bmalloc 24 (.ofAddress fun _ => true)) sampleWorld :=
    ⟨by decide, rfl⟩
  exact Reachable.refl.next step

/--
In every reachable state of an allocator that is set up, the free lists are well linked,
their entries are aligned to the size of their bucket, and free and live blocks together
tile the range from `base_ptr` to the end of the root.
-/
theorem blocks_tile_range
    {memory : Links Nat}
    (reachable : Reachable (Step platform) (World.initial memory) world)
    (setUp : world.state.basePtr ≠ 0) :
    ∃ freeLists : Nat → List Nat,
      (∀ bucket,
        world.state.bucketLimit ≤ bucket →
        bucket ≤ 27 →
        Ring world.state.cells (bucketHead platform bucket) (freeLists bucket) ∧
          ∀ entry ∈ freeLists bucket,
            world.state.basePtr ≤ entry ∧ 2 ^ (31 - bucket) ∣ entry - world.state.basePtr) ∧
        (∀ byte,
          (∃ owner, Owns world freeLists byte owner) ↔
            world.state.basePtr ≤ byte ∧
              byte < world.state.basePtr + 2 ^ (31 - world.state.bucketLimit)) ∧
        ∀ byte first second,
          Owns world freeLists byte first → Owns world freeLists byte second → first = second := by
  have represented := represented_of_reachable reachable setUp
  obtain ⟨lists, consistent⟩ := represented.heap
  have limit := consistent.limit
  refine ⟨fun bucket => entries world.state.basePtr lists (31 - bucket), ?_, ?_, ?_⟩
  · intro bucket atLeast atMost
    have ring := consistent.rings (31 - bucket) (by omega) (by omega)
    rw [Nat.sub_sub_self (by omega)] at ring
    refine ⟨ring, ?_⟩
    intro entry member
    obtain ⟨index, _, rfl⟩ := mem_entries.mp member
    refine ⟨Nat.le_add_right _ _, ?_⟩
    rw [Nat.add_sub_cancel_left]
    exact Dvd.intro_left index rfl
  · exact fun byte => represented.owned_iff consistent
  · exact fun byte first second => represented.owner_unique consistent

theorem blocks_tile_sampleWorld :
    ∃ freeLists : Nat → List Nat,
      ∀ byte,
        (∃ owner, Owns sampleWorld freeLists byte owner) ↔ 8192 ≤ byte ∧ byte < 8192 + 2 ^ 5 := by
  obtain ⟨freeLists, _, covered, _⟩ :=
    blocks_tile_range sampleWorld_reachable (by decide)
  exact ⟨freeLists, covered⟩

/-! ## The bits -/

/-- The free lists in memory, as sets of blocks. -/
def HasFreeBlocks (platform : Platform) (state : State) (free : Set Block) : Prop :=
  ∀ bucket,
    state.bucketLimit ≤ bucket →
    bucket ≤ 27 →
    ∃ freeList,
      Ring state.cells (bucketHead platform bucket) freeList ∧
        ∀ address,
          address ∈ freeList ↔
            ∃ block ∈ free, block.exponent = 31 - bucket ∧ state.basePtr + block.start = address

/--
In every reachable state of an allocator that is set up, the bit of a node of the tree
is set exactly when one of its halves is entirely free and the other is not, the bit above
the root exactly when the root is in use, and no other bit is set.  No two buddies are in
free lists, and every `list_remove` of `bfree` and `lower_bucket_limit` so far was applied
to an entry of the list it was meant for.
-/
theorem bits_tell_free_halves
    {memory : Links Nat}
    (reachable : Reachable (Step platform) (World.initial memory) world)
    (setUp : world.state.basePtr ≠ 0) :
    ∃ free : Set Block,
      HasFreeBlocks platform world.state free ∧
        (∀ block ∈ free,
          4 ≤ block.exponent ∧ Within block (root (31 - world.state.bucketLimit))) ∧
        (∀ node : Block,
          5 ≤ node.exponent →
          Within node (root (31 - world.state.bucketLimit)) →
          (splitBitAt world.state (nodeIndex node) = true ↔
            Xor (EntirelyFree free node.left) (EntirelyFree free node.right))) ∧
        (0 < world.state.bucketLimit →
          (splitBitAt world.state (nodeIndex (root (32 - world.state.bucketLimit))) = true ↔
            ¬ EntirelyFree free (root (31 - world.state.bucketLimit)))) ∧
        (∀ index,
          (∀ node : Block,
            5 ≤ node.exponent →
            Within node (root (31 - world.state.bucketLimit)) →
            nodeIndex node ≠ index) →
          (0 < world.state.bucketLimit →
            nodeIndex (root (32 - world.state.bucketLimit)) ≠ index) →
          splitBitAt world.state index = false) ∧
        (∀ block ∈ free, block.buddy ∉ free) ∧
        ∀ removal ∈ world.state.removals, removal.Sound platform := by
  have represented := represented_of_reachable reachable setUp
  obtain ⟨lists, consistent⟩ := represented.heap
  have limit := consistent.limit
  have upTo : ∀ {node : Block}, Within node (root (31 - world.state.bucketLimit)) →
      Within node (root 31) := by
    intro node inside
    refine inside.trans ?_
    rw [within_root]
    simp [root]
  refine ⟨freeBlocks lists, ?_, ?_, ?_, ?_, ?_, consistent.heap.merged, consistent.removals⟩
  · intro bucket atLeast atMost
    have ring := consistent.rings (31 - bucket) (by omega) (by omega)
    rw [Nat.sub_sub_self (by omega)] at ring
    refine ⟨_, ring, ?_⟩
    intro address
    rw [mem_entries]
    constructor
    · rintro ⟨index, inFree, same⟩
      exact ⟨_, inFree, rfl, same⟩
    · rintro ⟨⟨exponent, index⟩, inFree, rfl, same⟩
      exact ⟨index, inFree, same⟩
  · intro block inFree
    exact ⟨consistent.smallest block (Or.inl inFree),
      consistent.heap.tiles.within block (Or.inl inFree)⟩
  · intro node large inside
    rw [consistent.bits.nodes node (upTo inside) large, splitBit_within inside]
  · intro notLast
    rw [show 32 - world.state.bucketLimit = 31 - world.state.bucketLimit + 1 by omega,
      ← splitBit_above]
    apply consistent.bits.nodes
    · rw [within_root]
      simp only [root]
      exact ⟨by omega, Nat.two_pow_pos _⟩
    · simp only [root]
      omega
  · intro index notInside notAbove
    by_cases inArray : index < 2 ^ 27 - 1
    · obtain ⟨node, inRange, large, rfl⟩ := exists_nodeIndex inArray
      rw [← Bool.not_eq_true, consistent.bits.nodes node inRange large]
      refine splitBit_outside (fun inside => notInside node large inside rfl) ?_
      rintro rfl
      have below := inRange.1
      simp only [root] at below
      apply notAbove (by omega)
      rw [show 32 - world.state.bucketLimit = 31 - world.state.bucketLimit + 1 by omega]
    · exact consistent.bits.rest index (by omega)

theorem bits_tell_free_halves_sampleWorld :
    sampleWorld.state.bucketLimit = 26 ∧
      ∃ free : Set Block,
        HasFreeBlocks samplePlatform sampleWorld.state free ∧
          (splitBitAt sampleWorld.state (nodeIndex (root 6)) = true ↔
            ¬ EntirelyFree free (root 5)) := by
  obtain ⟨free, lists, _, _, above, _⟩ :=
    bits_tell_free_halves sampleWorld_reachable (by decide)
  exact ⟨by decide, free, lists, above (by decide)⟩

end Sysprog.Buddy
