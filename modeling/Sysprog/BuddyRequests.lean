import Sysprog.BuddyCanonical

namespace Sysprog.Buddy

open CircularList Execution MachineWord

/-!
# The size of what a request gets

`bmalloc` computes with the request and its header in a word.  What it takes from the free
lists is the part of the tree that no free entry and no earlier pointer holds, and this
part is as large as the smallest bucket for the sum in the word.
-/

variable
  {platform : Platform}
  {answers : Brk}
  {world : World}
  {state : State}

/-! ## Buckets -/

/-- The loop of `bucket_for_request` ends at a bucket with room, when there is one. -/
theorem bucketLoop_room
    {request bucket size : Nat}
    (bounded : bucket ≤ 31)
    (doubled : size = 2 ^ (31 - bucket))
    (fits : request ≤ 2 ^ 31) :
    request ≤ 2 ^ (31 - bucketLoop request bucket size) := by
  induction bucket generalizing size with
  | zero =>
      exact fits
  | succ bucket inductionHypothesis =>
      rw [bucketLoop]
      split
      · apply inductionHypothesis (by omega)
        rw [doubled, ← Nat.pow_succ]
        congr 1
        omega
      · omega

/-- A block of the bucket of a request holds the request. -/
theorem bucketForRequest_room
    {request : Nat}
    (fits : request ≤ 2 ^ 31) :
    request ≤ 2 ^ (31 - bucketForRequest request) :=
  bucketLoop_room (by omega) rfl fits

/-! ## The block that is taken -/

/-- The bytes of the tree that no free entry and no pointer of `world` holds. -/
def newBytes (world : World) (after : State) (freeLists : Nat → List Nat) : Set Nat :=
  { byte |
    after.basePtr ≤ byte ∧
      byte < after.basePtr + 2 ^ (31 - after.bucketLimit) ∧
      ∀ owner, ¬ Owns { world with state := after } freeLists byte owner }

/--
A pointer that `bmalloc` returns stands behind the header of a block that it took from the
free lists, and the block is large enough for the header and the request.
-/
def GivesRoom
    (platform : Platform)
    (answers : Brk)
    (world : World)
    (request : Nat) : Prop :=
  ∀ ptr after,
    bmalloc platform answers world.state request = (some ptr, after) →
      ∃ freeLists size,
        (∀ bucket,
          after.bucketLimit ≤ bucket →
          bucket ≤ 27 →
          Ring after.cells (bucketHead platform bucket) (freeLists bucket)) ∧
        newBytes world after freeLists = Set.Ico (ptr - 8) (ptr - 8 + size) ∧
        request + 8 ≤ size

/-- The world after a call that returned a pointer is set up. -/
theorem Invariant.represented_returned
    {request ptr : Nat}
    {after : State}
    (invariant : Invariant platform world)
    (returned : bmalloc platform answers world.state request = (some ptr, after)) :
    Represented platform
      { state := after, live := Function.update world.live ptr (some request) } := by
  have kept := @Invariant.afterMalloc _ answers _ invariant request
  simp only [World.afterMalloc, returned, World.returned] at kept
  rcases kept with untouched | represented
  · have none := untouched.live ptr
    simp at none
  · exact represented

/-- What `bmalloc` takes is one block of the bucket of the request. -/
theorem Invariant.newBytes_eq
    {request ptr : Nat}
    {after : State}
    (invariant : Invariant platform world)
    (returned : bmalloc platform answers world.state request = (some ptr, after)) :
    ∃ freeLists,
      (∀ bucket,
        after.bucketLimit ≤ bucket →
        bucket ≤ 27 →
        Ring after.cells (bucketHead platform bucket) (freeLists bucket)) ∧
      newBytes world after freeLists =
        Set.Ico (ptr - 8) (ptr - 8 + 2 ^ (31 - requestBucket request)) := by
  have fresh := invariant.bmalloc_fresh returned
  have represented := invariant.represented_returned returned
  obtain ⟨lists, consistent⟩ := represented.heap
  have limit : after.bucketLimit ≤ 27 := consistent.limit
  -- Older pointers hold in the new world what they hold in the old one.
  have older :
      ∀ {byte owner},
        Owns { world with state := after } (fun bucket => entries after.basePtr lists (31 - bucket))
            byte owner →
        owner ≠ .live ptr ∧
          Owns { state := after, live := Function.update world.live ptr (some request) }
            (fun bucket => entries after.basePtr lists (31 - bucket)) byte owner := by
    intro byte owner owns
    cases owner with
    | free bucket entry =>
        exact ⟨by simp, owns⟩
    | live other =>
        obtain ⟨asked, isLive, held⟩ := owns
        have different : other ≠ ptr := by
          rintro rfl
          simp [fresh] at isLive
        exact ⟨by simpa using different, asked, by simpa [different] using isLive, held⟩
  refine ⟨fun bucket => entries after.basePtr lists (31 - bucket), ?_, ?_⟩
  · intro bucket atLeast atMost
    have inTree : 31 - bucket ≤ 31 - after.bucketLimit := by
      omega
    have ring := consistent.rings (31 - bucket) (by omega) inTree
    rwa [Nat.sub_sub_self (by omega)] at ring
  · ext byte
    constructor
    · rintro ⟨above, below, unowned⟩
      obtain ⟨owner, owns⟩ := (represented.owned_iff consistent).mpr ⟨above, below⟩
      cases owner with
      | free bucket entry =>
          exact absurd owns (unowned (.free bucket entry))
      | live other =>
          obtain ⟨asked, isLive, held⟩ := owns
          by_cases same : other = ptr
          · subst same
            simp only [Function.update_self, Option.some.injEq] at isLive
            exact isLive ▸ held
          · simp only [Function.update_of_ne same] at isLive
            exact absurd ⟨asked, isLive, held⟩ (unowned (.live other))
    · intro held
      have owns :
          Owns { state := after, live := Function.update world.live ptr (some request) }
            (fun bucket => entries after.basePtr lists (31 - bucket)) byte (.live ptr) :=
        ⟨request, Function.update_self _ _ _, held⟩
      obtain ⟨above, below⟩ := (represented.owned_iff consistent).mp ⟨_, owns⟩
      refine ⟨above, below, fun owner olderOwns => ?_⟩
      obtain ⟨different, newOwns⟩ := older olderOwns
      exact different (represented.owner_unique consistent newOwns owns)

/-- What `bmalloc` takes was available before. -/
theorem Invariant.available_of_returned
    {request ptr : Nat}
    {after : State}
    (invariant : Invariant platform world)
    (returned : bmalloc platform answers world.state request = (some ptr, after)) :
    ∃ start, Available platform world (2 ^ (31 - requestBucket request)) start := by
  have fresh := invariant.bmalloc_fresh returned
  have represented := invariant.represented_returned returned
  obtain ⟨lists, consistent⟩ := represented.heap
  simp only [liveBlocks_update_some fresh] at consistent
  have member :
      liveBlock platform ptr request ∈
        freeBlocks lists ∪
          insert (liveBlock platform ptr request) (liveBlocks platform world.live) :=
    Or.inr (Or.inl rfl)
  rw [invariant.available_iff (show requestBucket request ≤ 27 from bucketForRequest_le _)]
  refine ⟨liveBlock platform ptr request, rfl, consistent.within_range member, ?_⟩
  rintro other ⟨olderPtr, asked, isLive, rfl⟩ offset holds otherHolds
  have same :=
    consistent.heap.tiles.unique offset _ member _
      (Or.inr (Or.inr ⟨olderPtr, asked, isLive, rfl⟩)) holds otherHolds
  have different : olderPtr ≠ ptr := by
    rintro rfl
    simp [fresh] at isLive
  have address := (represented.pointers ptr request (Function.update_self _ _ _)).1
  have olderAddress :=
    (represented.pointers olderPtr asked ((Function.update_of_ne different _ _).trans isLive)).1
  rw [← same] at olderAddress
  exact different (olderAddress.trans address.symm)

/-- A block of the tree is no larger than the largest tree. -/
theorem GivesRoom.bounded
    {request ptr : Nat}
    {after : State}
    (givesRoom : GivesRoom platform answers world request)
    (returned : bmalloc platform answers world.state request = (some ptr, after)) :
    request + 8 ≤ 2 ^ 31 := by
  obtain ⟨freeLists, size, _, block, room⟩ := givesRoom ptr after returned
  have first : ptr - 8 ∈ newBytes world after freeLists := by
    rw [block, Set.mem_Ico]
    omega
  have last : ptr - 8 + size - 1 ∈ newBytes world after freeLists := by
    rw [block, Set.mem_Ico]
    omega
  have tree : 2 ^ (31 - after.bucketLimit) ≤ 2 ^ 31 :=
    Nat.pow_le_pow_right (by omega) (by omega)
  have above := first.1
  have below := last.2.1
  omega

/-- Where the sum does not wrap, the block is large enough. -/
theorem Invariant.givesRoom
    {request : Nat}
    (invariant : Invariant platform world)
    (noWrap : request + 8 < words) :
    GivesRoom platform answers world request := by
  intro ptr after returned
  obtain ⟨freeLists, rings, block⟩ := invariant.newBytes_eq returned
  refine ⟨freeLists, _, rings, block, ?_⟩
  have fits : request + 8 ≤ 2 ^ 31 := by
    by_contra tooLarge
    rw [bmalloc, add_of_lt noWrap, if_pos (by omega)] at returned
    simp at returned
  rw [requestBucket, add_of_lt noWrap]
  exact bucketForRequest_room fits

/-- A sum that wraps is less than the header. -/
theorem add_wraps
    {request : Nat}
    (sized : request < words)
    (wraps : ¬ request + 8 < words) :
    add request 8 < 8 := by
  simp only [add, words] at *
  omega

/-- A sum that wraps asks for a block of the last bucket. -/
theorem requestBucket_wraps
    {request : Nat}
    (sized : request < words)
    (wraps : ¬ request + 8 < words) :
    requestBucket request = 27 := by
  have small := add_wraps sized wraps
  rw [requestBucket, bucketForRequest, bucketLoop, if_neg (by omega)]

/--
Exactly when every pointer that a request may get has room for the request: the sum of
request and header does not wrap, or no block of the smallest size is left.
-/
theorem bmalloc_gives_room_iff
    {memory : Links Nat}
    {request : Nat}
    (reachable : Reachable (Step platform) (World.initial memory) world)
    (sized : request < words) :
    (∀ answers, GivesRoom platform answers world request) ↔
      request + 8 < words ∨ ¬ ∃ start, Available platform world 16 start := by
  have invariant := invariant_reachable reachable
  constructor
  · intro givesRoom
    by_contra neither
    obtain ⟨wraps, available⟩ := not_or.mp neither
    have small := add_wraps sized wraps
    have smallest := requestBucket_wraps sized wraps
    cases returned : bmalloc platform (.ofAddress always) world.state request with
    | mk result after =>
        cases result with
        | none =>
            have noBlock := (invariant.bmalloc_none_iff (by omega)).mp
              (congrArg Prod.fst returned)
            rw [smallest] at noBlock
            exact available noBlock
        | some ptr =>
            have bounded := (givesRoom (.ofAddress always)).bounded returned
            simp only [words] at wraps
            omega
  · rintro (noWrap | noBlock) answers
    · exact invariant.givesRoom noWrap
    · by_cases noWrap : request + 8 < words
      · exact invariant.givesRoom noWrap
      · intro ptr after returned
        have available := invariant.available_of_returned returned
        rw [requestBucket_wraps sized noWrap] at available
        exact absurd available noBlock

/-- A request for half a megabyte gets a block that is large enough. -/
theorem bmalloc_gives_room_sampleWorld :
    GivesRoom samplePlatform (.ofAddress always) sampleWorld (2 ^ 19) :=
  (bmalloc_gives_room_iff sampleWorld_reachable (by decide)).mpr (Or.inl (by decide)) _

/-- The largest request that a `size_t` holds gets a block of 16 bytes. -/
theorem largest_request_gets_smallest_block :
    ¬ GivesRoom samplePlatform (.ofAddress always) sampleWorld (2 ^ 64 - 1) := by
  intro givesRoom
  have returned :
      (bmalloc samplePlatform (.ofAddress always) sampleWorld.state (2 ^ 64 - 1)).1 =
        some 8232 := by
    decide +kernel
  cases called : bmalloc samplePlatform (.ofAddress always) sampleWorld.state (2 ^ 64 - 1) with
  | mk result after =>
      rw [called] at returned
      obtain rfl : result = some 8232 := returned
      have bounded := givesRoom.bounded called
      omega

end Sysprog.Buddy
