import StarterProjects.Sfmm.Memory

/-!
# `sfmm.c`

The functions of `hw3/src/sfmm.c`, statement by statement. Pointers and
`size_t` values are naturals below `2 ^ 64`; `add64` and `sub64` wrap where the
source can. A traversal of a free list that visits more nodes than there are
mapped words has come back to a node it has seen, and never ends: that is what
`walkBound` stands for.
-/

namespace StarterProjects.Sfmm

open Lib Lib.Exec

variable (e : Env)

/-! ## Access to the globals -/

def getQuick (i : Nat) : Exec State QuickList := do
  let s ← get
  pure (s.sf_quick_lists i)

def setQuick (i : Nat) (q : QuickList) : Exec State Unit :=
  modify fun s => s.withQuick i q

def setGlobalEnd (b : Nat) : Exec State Unit :=
  modify fun s => { s with globalEnd := b }

def setErrno (n : Nat) : Exec State Unit :=
  modify fun s => { s with sf_errno := n }

/-- `sf_mem_grow` of `lib/sfutil.o`: one more page, or `NULL` with `sf_errno` set. -/
def sf_mem_grow : Exec State Nat := fun s =>
  if e.grants s.growCalls = true ∧ s.sf_mem_end + PAGE_SZ ≤ e.heapLimit then
    .ok (s.sf_mem_end,
      { s with sf_mem_end := s.sf_mem_end + PAGE_SZ, growCalls := s.growCalls + 1 })
  else
    .ok (NULL, { s with sf_errno := ENOMEM, growCalls := s.growCalls + 1 })

/-- One more than the number of words a list traversal can read. -/
def walkBound (s : State) : Nat := (s.sf_mem_end - e.sf_mem_start) / 8 + 42

/-! ## Helpers of the source -/

def sf_get_past_block (middleBlockHeader blockSz : Nat) : Nat := sub64 middleBlockHeader blockSz

def sf_get_next_block (middleBlockHeader blockSz : Nat) : Nat := add64 middleBlockHeader blockSz

def sf_get_block_sz (curBlock : Nat) : Exec State Nat := do
  let h ← load e (headerOf curBlock)
  pure (unflag (h ^^^ e.magic))

def sf_set_block_footer (curBlock : Nat) : Exec State Unit := do
  let h ← load e (headerOf curBlock)
  store e (add64 curBlock (unflag (h ^^^ e.magic))) h

/-- The size class chain of `sf_put_in_free_list`. -/
def freeIndex (blockSize : Nat) : Nat :=
  if blockSize ≤ 32 then 0
  else if blockSize ≤ 64 then 1
  else if blockSize ≤ 128 then 2
  else if blockSize ≤ 256 then 3
  else if blockSize ≤ 512 then 4
  else if blockSize ≤ 1024 then 5
  else if blockSize ≤ 2048 then 6
  else if blockSize ≤ 4096 then 7
  else if blockSize ≤ 8192 then 8
  else 9

def sf_put_in_free_list_helper (splitBlock curIdx : Nat) : Exec State Unit := do
  let oldNext ← load e (nextOf (e.head curIdx))
  store e (prevOf oldNext) splitBlock
  store e (nextOf splitBlock) oldNext
  store e (prevOf splitBlock) (e.head curIdx)
  store e (nextOf (e.head curIdx)) splitBlock

def sf_put_in_free_list (splitBlock blockSize : Nat) : Exec State Unit :=
  sf_put_in_free_list_helper e splitBlock (freeIndex blockSize)

/-- The inner loop of `sf_remove_from_free_list`; `some ()` is its `return`. -/
def sf_remove_walk (removedBlock head : Nat) : Nat → Nat → Exec State (Option Unit)
  | 0, _ => stop .diverges
  | fuel + 1, curBlock => do
      let curBlock ← load e (nextOf curBlock)
      if curBlock = head then
        pure none
      else if curBlock = removedBlock then do
        let tempBlock ← load e (nextOf curBlock)
        let prev ← load e (prevOf curBlock)
        store e (prevOf tempBlock) prev
        let prev ← load e (prevOf curBlock)
        store e (nextOf prev) tempBlock
        pure (some ())
      else
        sf_remove_walk removedBlock head fuel curBlock

def sf_remove_from_free_list (removedBlock : Nat) : Exec State Unit := do
  let s ← get
  let _ ← firstSome (fun i => sf_remove_walk e removedBlock (e.head i) (walkBound e s) (e.head i))
    (List.range NUM_FREE_LISTS)
  pure ()

/-! ## `sf_coalesce` -/

/-- What `sf_coalesce` finds out about a neighbour that is inside the heap:
whether it is unallocated, and its size. -/
def sf_probe (block : Nat) : Exec State (Bool × Nat) := do
  let h ← load e (headerOf block)
  pure (decide ((h ^^^ e.magic) &&& THIS_BLOCK_ALLOCATED = 0), unflag (h ^^^ e.magic))

/-- The five statements that end each merging branch of `sf_coalesce`. -/
def sf_make_free (newBlock newSize past_block_sz : Nat) : Exec State Unit := do
  store e (headerOf newBlock) ((newSize ||| PREV_BLOCK_ALLOCATED) ^^^ e.magic)
  store e (prevFooterOf newBlock) ((past_block_sz ||| THIS_BLOCK_ALLOCATED) ^^^ e.magic)
  sf_set_block_footer e newBlock
  sf_put_in_free_list e newBlock newSize

/-- The probe of the block before: nothing outside the heap is read. -/
def sf_probe_past (s : State) (past_block : Nat) : Exec State (Bool × Nat) :=
  if past_block < e.sf_mem_start ∨ sub64 s.sf_mem_end 16 ≤ past_block then pure (false, 0)
  else sf_probe e past_block

/-- The probe of the block after. -/
def sf_probe_next (s : State) (next_block : Nat) : Exec State (Bool × Nat) :=
  if sub64 s.sf_mem_end 16 ≤ next_block ∨ next_block ≤ e.sf_mem_start then pure (false, 0)
  else sf_probe e next_block

/-- The four branches of `sf_coalesce`; `past` and `next` are a block, whether
it is unallocated, and its size. -/
def sf_merge (middleBlock blockSz : Nat) (past next : Nat × Bool × Nat) : Exec State Bool :=
  match past, next with
  | (_, false, _), (_, false, _) => do
      sf_put_in_free_list e middleBlock blockSz
      pure false
  | (past_block, true, past_block_sz), (_, false, _) => do
      sf_remove_from_free_list e middleBlock
      sf_remove_from_free_list e past_block
      sf_make_free e past_block (add64 blockSz past_block_sz) past_block_sz
      pure true
  | (_, false, past_block_sz), (next_block, true, next_block_sz) => do
      sf_remove_from_free_list e middleBlock
      sf_remove_from_free_list e next_block
      sf_make_free e middleBlock (add64 blockSz next_block_sz) past_block_sz
      pure true
  | (past_block, true, past_block_sz), (next_block, true, next_block_sz) => do
      sf_remove_from_free_list e middleBlock
      sf_remove_from_free_list e past_block
      sf_remove_from_free_list e next_block
      sf_make_free e past_block (add64 (add64 blockSz past_block_sz) next_block_sz) past_block_sz
      pure true

def sf_coalesce (middleBlock blockSz prevFooter : Nat) (makingLargePage : Bool) :
    Exec State Bool := do
  let s ← get
  let past_block := if prevFooter > 0 then sf_get_past_block middleBlock prevFooter else NULL
  let next_block := sf_get_next_block middleBlock blockSz
  let (past_block_all, past_block_sz) ← sf_probe_past e s past_block
  let (next_block_all, next_block_sz) ← sf_probe_next e s next_block
  sf_merge e middleBlock blockSz (past_block, past_block_all, past_block_sz)
    (next_block, !makingLargePage && next_block_all, next_block_sz)

/-! ## Initialisation -/

def sf_init_lists : Exec State Unit := do
  forEach (fun i => setQuick i ⟨0, NULL⟩) (List.range NUM_QUICK_LISTS)
  forEach (fun i => do
    store e (prevOf (e.head i)) (e.head i)
    store e (nextOf (e.head i)) (e.head i)) (List.range NUM_FREE_LISTS)

def sf_init_first_page : Exec State Unit := do
  sf_init_lists e
  let pgBlock ← sf_mem_grow e
  let pgBlockSz := 4080 ^^^ e.magic
  store e (headerOf pgBlock) pgBlockSz
  store e (prevFooterOf pgBlock) 0
  store e (add64 pgBlock 4080) pgBlockSz
  setGlobalEnd e.sf_mem_start
  store e (nextOf (e.head 7)) pgBlock
  store e (prevOf pgBlock) (e.head 7)
  store e (nextOf pgBlock) (e.head 7)

/-! ## `sf_malloc` -/

/-- The two rounding loops of `sf_malloc`: the block size for a request. -/
def sf_malloc_round (size : Nat) : Option Nat := do
  let (blockSize, paddingSz) ← whileLoop (fun p : Nat × Nat => p.1 % 16 != 0)
    (fun p => (add64 p.1 1, add64 p.2 1)) 64 (add64 size 8, 0)
  let (blockSize, _) ← whileLoop (fun p : Nat × Nat => p.1 % 16 != 0 || decide (p.2 < 24))
    (fun p => (add64 p.1 1, add64 p.2 1)) 64 (blockSize, add64 size paddingSz)
  pure blockSize

/-- One turn of the quick list loop: the payload pointer when the first block
of list `i` has exactly the requested size. -/
def sf_malloc_quick (blockSize i : Nat) : Exec State (Option Nat) := do
  let q ← getQuick i
  if q.length > 0 then do
    let h ← load e (headerOf q.first)
    if stripFlags (h ^^^ e.magic) = blockSize then do
      setQuick i ⟨q.length - 1, q.first⟩
      let next ← load e (nextOf q.first)
      setQuick i ⟨q.length - 1, next⟩
      pure (some (nextOf q.first))
    else
      pure none
  else
    pure none

/-- The traversal of one free list: the first block that is large enough, with
its size. -/
def sf_malloc_find (blockSize head : Nat) : Nat → Nat → Exec State (Option (Nat × Nat))
  | 0, _ => stop .diverges
  | fuel + 1, curBlock => do
      let curBlock ← load e (nextOf curBlock)
      if curBlock = head then
        pure none
      else do
        let h ← load e (headerOf curBlock)
        if stripFlags (h ^^^ e.magic) ≥ blockSize then
          pure (some (curBlock, stripFlags (h ^^^ e.magic)))
        else
          sf_malloc_find blockSize head fuel curBlock

/-- `if(block > globalEnd) globalEnd = block;` -/
def raiseGlobalEnd (block : Nat) : Exec State Unit :=
  modify fun s => { s with globalEnd := if block > s.globalEnd then block else s.globalEnd }

/-- Allocation in a free block that is large enough: the split branch. -/
def sf_malloc_split (curBlock curListBlockSz blockSize : Nat) : Exec State Nat := do
  let splitBlock := add64 curBlock blockSize
  store e (headerOf splitBlock)
    (((curListBlockSz - blockSize) ||| PREV_BLOCK_ALLOCATED) ^^^ e.magic)
  store e (prevFooterOf splitBlock) ((blockSize ||| THIS_BLOCK_ALLOCATED) ^^^ e.magic)
  sf_set_block_footer e splitBlock
  let newPrev ← load e (prevOf curBlock)
  let newNext ← load e (nextOf curBlock)
  store e (nextOf newPrev) newNext
  store e (prevOf newNext) newPrev
  sf_put_in_free_list e splitBlock (curListBlockSz - blockSize)
  store e (headerOf curBlock)
    ((blockSize ||| THIS_BLOCK_ALLOCATED ||| PREV_BLOCK_ALLOCATED) ^^^ e.magic)
  raiseGlobalEnd splitBlock
  pure (nextOf curBlock)

/-- The branch that takes the whole free block. -/
def sf_malloc_exact (curBlock : Nat) : Exec State Nat := do
  sf_remove_from_free_list e curBlock
  let s ← get
  let endHeader ← load e (headerOf s.globalEnd)
  let h ← load e (headerOf curBlock)
  if (endHeader ^^^ e.magic) &&& THIS_BLOCK_ALLOCATED = THIS_BLOCK_ALLOCATED then
    store e (headerOf curBlock)
      (((h ^^^ e.magic) ||| THIS_BLOCK_ALLOCATED ||| PREV_BLOCK_ALLOCATED) ^^^ e.magic)
  else
    store e (headerOf curBlock) (((h ^^^ e.magic) ||| THIS_BLOCK_ALLOCATED) ^^^ e.magic)
  raiseGlobalEnd curBlock
  pure (nextOf curBlock)

def sf_malloc_place (curBlock curListBlockSz blockSize : Nat) : Exec State Nat :=
  if curListBlockSz - blockSize ≥ 32 then sf_malloc_split e curBlock curListBlockSz blockSize
  else sf_malloc_exact e curBlock

/-- The most turns the growth loop can take: `(int)tempSize` starts below
`2 ^ 31` and loses `PAGE_SZ` in each. -/
def growBound : Nat := 2 ^ 19 + 1

/-- What the growth loop does with a page it got. -/
def sf_malloc_page (newPage : Nat) : Exec State Unit := do
  store e (headerOf newPage) (PAGE_SZ ^^^ e.magic)
  sf_set_block_footer e newPage
  let size ← sf_get_block_sz e newPage
  let footer ← load e (prevFooterOf newPage)
  let _ ← sf_coalesce e newPage size (footer ^^^ e.magic) true
  pure ()

/-- The growth loop; `false` is its `return NULL`. -/
def sf_malloc_pages (newPage : Nat) : Nat → Nat → Exec State Bool
  | 0, _ => stop .diverges
  | fuel + 1, tempSize =>
      if intNeg tempSize then
        pure true
      else do
        let page ← sf_mem_grow e
        if page = NULL then do
          setErrno ENOMEM
          pure false
        else do
          sf_malloc_page e newPage
          sf_malloc_pages newPage fuel (sub64 tempSize PAGE_SZ)

/-- The growth part of `sf_malloc`, up to the self-call. -/
def sf_malloc_grow (size : Nat) : Exec State Bool := do
  let s ← get
  let h ← load e (headerOf s.globalEnd)
  let globalEndBlockSz := unflag (h ^^^ e.magic)
  let newPage := sub64 s.sf_mem_end 16
  let header := if (h ^^^ e.magic) &&& THIS_BLOCK_ALLOCATED = THIS_BLOCK_ALLOCATED then
    (PAGE_SZ ||| PREV_BLOCK_ALLOCATED) ^^^ e.magic else PAGE_SZ ^^^ e.magic
  store e (headerOf newPage) header
  store e (prevFooterOf newPage) (globalEndBlockSz ^^^ e.magic)
  let h ← load e (headerOf s.globalEnd)
  let tempSize := if (h ^^^ e.magic) &&& THIS_BLOCK_ALLOCATED = THIS_BLOCK_ALLOCATED then size
    else sub64 size globalEndBlockSz
  sf_malloc_pages e newPage growBound tempSize

/-- The part of `sf_malloc` after the guards and the initialisation: the
allocation when a quick list or a free list serves the request. -/
def sf_malloc_search (blockSize : Nat) : Exec State (Option Nat) := do
  match ← firstSome (sf_malloc_quick e blockSize) (List.range NUM_QUICK_LISTS) with
  | some p => pure (some p)
  | none => do
      let s ← get
      match ← firstSome (fun i => sf_malloc_find e blockSize (e.head i) (walkBound e s) (e.head i))
        (List.range NUM_FREE_LISTS) with
      | some (curBlock, curListBlockSz) => do
          let p ← sf_malloc_place e curBlock curListBlockSz blockSize
          pure (some p)
      | none => pure none

/-- `sf_malloc` on an initialised heap; `again` is its self-call. -/
def sf_malloc_main (again : Exec State Nat) (size : Nat) : Exec State Nat :=
  match sf_malloc_round size with
  | none => stop .diverges
  | some blockSize => do
      match ← sf_malloc_search e blockSize with
      | some p => pure p
      | none => do
          let grown ← sf_malloc_grow e size
          if grown then again else pure NULL

/-- The body of `sf_malloc`. -/
def sf_malloc_body (again : Exec State Nat) (size : Nat) : Exec State Nat :=
  if size = 0 then
    pure NULL
  else if intNeg size then do
    setErrno ENOMEM
    pure NULL
  else do
    let s ← get
    if e.sf_mem_start = s.sf_mem_end then
      sf_init_first_page e
    sf_malloc_main e again size

/-- `sf_malloc`; `fuel` bounds the depth of the self-calls. -/
def sf_malloc : Nat → Nat → Exec State Nat
  | 0, _ => stop .diverges
  | fuel + 1, size => sf_malloc_body e (sf_malloc fuel size) size

/-! ## Quick lists -/

/-- The size chain of `sf_put_in_quick_list`. -/
def quickIndex (blockSize : Nat) : Option Nat :=
  if blockSize = 32 then some 0
  else if blockSize = 48 then some 1
  else if blockSize = 64 then some 2
  else if blockSize = 80 then some 3
  else if blockSize = 96 then some 4
  else if blockSize = 112 then some 5
  else if blockSize = 128 then some 6
  else if blockSize = 144 then some 7
  else if blockSize = 160 then some 8
  else if blockSize = 176 then some 9
  else none

/-- The first loop of `sf_flush_quick_list`: clear the flags of every block of
the chain and collect them in `blockArray`, which has room for
`QUICK_LIST_MAX` blocks. -/
def sf_flush_clear : Nat → Nat → Exec State (List Nat)
  | room, head =>
      if head = NULL then
        pure []
      else do
        let h ← load e (headerOf head)
        store e (headerOf head) (unflag (h ^^^ e.magic) ^^^ e.magic)
        sf_set_block_footer e head
        match room with
        | 0 => stop .undefined
        | room + 1 => do
            let next ← load e (nextOf head)
            let rest ← sf_flush_clear room next
            pure (head :: rest)

/-- One turn of the second loop of `sf_flush_quick_list`; `prev_footer` is
passed as it is stored. -/
def sf_flush_one (block : Nat) : Exec State Unit := do
  let size ← sf_get_block_sz e block
  let footer ← load e (prevFooterOf block)
  let _ ← sf_coalesce e block size footer false
  pure ()

def sf_flush_quick_list (curBlock listIdx : Nat) : Exec State Unit := do
  let q ← getQuick listIdx
  if q.length ≠ 0 then do
    let blockArray ← sf_flush_clear e QUICK_LIST_MAX q.first
    store e (nextOf curBlock) NULL
    setQuick listIdx ⟨1, curBlock⟩
    forEach (sf_flush_one e) blockArray
  else
    pure ()

def sf_put_in_quick_list_helper (curBlock curIdx : Nat) : Exec State Unit := do
  let q ← getQuick curIdx
  if q.length = 5 then
    sf_flush_quick_list e curBlock curIdx
  else if q.first ≠ NULL then do
    store e (nextOf curBlock) q.first
    setQuick curIdx ⟨q.length + 1, curBlock⟩
  else do
    store e (nextOf curBlock) NULL
    setQuick curIdx ⟨q.length + 1, curBlock⟩

def sf_put_in_quick_list (curBlock blockSize : Nat) : Exec State Bool :=
  match quickIndex blockSize with
  | some i => do
      sf_put_in_quick_list_helper e curBlock i
      pure true
  | none => pure false

/-! ## `sf_free` -/

/-- The checks of `sf_free` on the header word it reads: flags, size, bounds. -/
def headerRejected (s : State) (pp h : Nat) : Prop :=
  h &&& THIS_BLOCK_ALLOCATED ≠ 0x4 ∨
    stripFlags h < 32 ∨ stripFlags h % 16 ≠ 0 ∨ pp < e.sf_mem_start ∨
    s.sf_mem_end < add64 (sub64 pp 16) (stripFlags h)

instance (s : State) (pp h : Nat) : Decidable (headerRejected e s pp h) :=
  inferInstanceAs (Decidable (_ ∨ _))

/-- The check of `sf_free` on the block its `PREV_ALLOCATED` bit calls free. -/
def pastRejected (s : State) (curBlock h : Nat) : Exec State Bool :=
  if h &&& PREV_BLOCK_ALLOCATED = 0 then
    let past_block := sf_get_past_block curBlock (stripFlags h)
    if past_block ≥ e.sf_mem_start ∧ past_block < s.sf_mem_end then do
      let p ← load e (headerOf past_block)
      pure (decide ((p ^^^ e.magic) &&& THIS_BLOCK_ALLOCATED ≠ 0))
    else
      pure false
  else
    pure false

/-- What `sf_free` does to the block after: clear a flag, write a footer. -/
def sf_free_next (next_block : Nat) : Exec State Unit := do
  let h ← load e (headerOf next_block)
  store e (headerOf next_block) (clearPrev (h ^^^ e.magic) ^^^ e.magic)
  sf_set_block_footer e next_block

/-- `sf_free` after its checks, for a block that goes to a free list. -/
def sf_free_main (curBlock curBlockSz : Nat) (hadPrevAll : Bool) : Exec State Unit := do
  sf_free_next e (sf_get_next_block curBlock curBlockSz)
  store e (headerOf curBlock)
    ((if hadPrevAll then curBlockSz ||| PREV_BLOCK_ALLOCATED else curBlockSz) ^^^ e.magic)
  sf_set_block_footer e curBlock
  let footer ← load e (prevFooterOf curBlock)
  let _ ← sf_coalesce e curBlock curBlockSz (unflag (footer ^^^ e.magic)) false
  pure ()

def sf_free (pp : Nat) : Exec State Unit := do
  let curBlock := sub64 pp 16
  if curBlock = NULL then
    stop .abort
  else if pp % 16 ≠ 0 then
    stop .abort
  else do
    let s ← get
    let w ← load e (headerOf curBlock)
    let h := w ^^^ e.magic
    if headerRejected e s pp h then
      stop .abort
    else do
      let bad ← pastRejected e s curBlock h
      if bad then
        stop .abort
      else do
        let curBlockSz := stripFlags h
        let quick ← sf_put_in_quick_list e curBlock curBlockSz
        if quick then
          pure ()
        else
          sf_free_main e curBlock curBlockSz (decide (h &&& PREV_BLOCK_ALLOCATED = 0x2))

/-! ## `sf_realloc` -/

/-- `memcpy` of `8 * n` bytes between 8-byte aligned addresses. -/
def memcpyWords : Nat → Nat → Nat → Exec State Unit
  | 0, _, _ => pure ()
  | n + 1, dst, src => do
      let w ← load e src
      store e dst w
      memcpyWords n (dst + 8) (src + 8)

/-- The check of `sf_realloc` on the past block; unlike `sf_free` it does not
compare with `sf_mem_end`. -/
def pastRejectedRealloc (curBlock h : Nat) : Exec State Bool :=
  if h &&& PREV_BLOCK_ALLOCATED = 0 then
    let past_block := sf_get_past_block curBlock (stripFlags h)
    if past_block ≥ e.sf_mem_start then do
      let p ← load e (headerOf past_block)
      pure (decide ((p ^^^ e.magic) &&& THIS_BLOCK_ALLOCATED ≠ 0))
    else
      pure false
  else
    pure false

/-- `difference`, the request plus header rounded up to 16. -/
def sf_realloc_difference (rsize : Nat) : Option Nat :=
  whileLoop (fun d => d % 16 != 0) (fun d => add64 d 1) 64 (add64 rsize 8)

/-- `newBlockSz` of the split branch. -/
def sf_realloc_newBlockSz (rsize : Nat) : Option Nat :=
  whileLoop (fun d => d % 16 != 0 || decide (d ≤ 16)) (fun d => add64 d 1) 64 (add64 rsize 8)

/-- The split branch of `sf_realloc`: the links it follows are those of an
allocated block. -/
def sf_realloc_split (curBlock curBlockSz newBlockSz : Nat) : Exec State Nat := do
  let splitBlock := add64 curBlock newBlockSz
  let rest := sub64 curBlockSz newBlockSz
  store e (headerOf splitBlock) ((rest ||| PREV_BLOCK_ALLOCATED) ^^^ e.magic)
  store e (prevFooterOf splitBlock) ((newBlockSz ||| THIS_BLOCK_ALLOCATED) ^^^ e.magic)
  sf_set_block_footer e splitBlock
  let newPrev ← load e (prevOf curBlock)
  let newNext ← load e (nextOf curBlock)
  store e (nextOf newPrev) newNext
  store e (prevOf newNext) newPrev
  sf_put_in_free_list e splitBlock rest
  store e (headerOf curBlock)
    ((newBlockSz ||| THIS_BLOCK_ALLOCATED ||| PREV_BLOCK_ALLOCATED) ^^^ e.magic)
  raiseGlobalEnd splitBlock
  let footer ← load e (prevFooterOf splitBlock)
  let _ ← sf_coalesce e splitBlock rest (unflag (footer ^^^ e.magic)) false
  pure (nextOf curBlock)

/-- The branch of `sf_realloc` that asks for a bigger block. -/
def sf_realloc_bigger (fuel curBlock curBlockSz rsize : Nat) : Exec State Nat := do
  let newBiggerBlock ← sf_malloc e fuel rsize
  if newBiggerBlock = NULL then
    pure NULL
  else do
    memcpyWords e ((curBlockSz - 8) / 8) newBiggerBlock curBlock
    sf_free e (add64 curBlock 16)
    pure newBiggerBlock

/-- `sf_realloc` after its checks, for a request that is not zero. -/
def sf_realloc_main (fuel pp curBlock curBlockSz rsize : Nat) : Exec State Nat :=
  match sf_realloc_difference rsize with
  | none => stop .diverges
  | some difference =>
      if curBlockSz = add64 rsize 8 then
        pure pp
      else if curBlockSz < rsize then
        sf_realloc_bigger e fuel curBlock curBlockSz rsize
      else if curBlockSz > rsize then
        if sub64 curBlockSz difference < 32 then
          pure pp
        else
          match sf_realloc_newBlockSz rsize with
          | none => stop .diverges
          | some newBlockSz => sf_realloc_split e curBlock curBlockSz newBlockSz
      else
        pure NULL

def sf_realloc (fuel pp rsize : Nat) : Exec State Nat := do
  let curBlock := sub64 pp 16
  if curBlock = NULL then do
    setErrno EINVAL
    stop .abort
  else if pp % 16 ≠ 0 then do
    setErrno EINVAL
    stop .abort
  else do
    let s ← get
    let w ← load e (headerOf curBlock)
    let h := w ^^^ e.magic
    if headerRejected e s pp h then do
      setErrno EINVAL
      stop .abort
    else do
      let bad ← pastRejectedRealloc e curBlock h
      if bad then do
        setErrno EINVAL
        stop .abort
      else if rsize = 0 then do
        sf_free e pp
        pure NULL
      else
        sf_realloc_main e fuel pp curBlock (stripFlags h) rsize

end StarterProjects.Sfmm
