import QuickFS.Client.Cached

/-!
# The blocks of a read

`blocks_for` cuts a read into blocks: aligned, one after another, from the block in which the read
starts to the one in which it ends, and none beyond the end of the file.  There are two sizes of
blocks, and small reads go by the smaller one.  What it returns is a tiling of the part of the read
that is in the file (`Tiling`), and it does not fail unless the numbers do not fit (`blocks_tile`).
-/

namespace QuickFS.Cached

/-- `i64::MAX`. -/
def i64Max : ℕ := 2 ^ 63 - 1

/-- Blocks of a file that tile what is read of it, which is from `offset` to `stop`.  Every one of
them has a byte in common with it, so the first and the last have. -/
structure Tiling (state : CachedHandle) (blockSize offset stop : ℕ) (blocks : List RangeKey) :
    Prop where
  file : ∀ block ∈ blocks, block.file = ⟨state.node, state.revision⟩
  aligned : ∀ block ∈ blocks, blockSize ∣ block.offset
  nonempty : ∀ block ∈ blocks, 0 < block.length
  within : ∀ block ∈ blocks, block.offset + block.length ≤ state.size
  contiguous : ∀ k, (h : k + 1 < blocks.length) →
    blocks[k].offset + blocks[k].length = blocks[k + 1].offset
  disjoint : blocks.Pairwise fun a b => a.offset + a.length ≤ b.offset
  covers : ∀ position, offset ≤ position → position < stop →
    ∃ block ∈ blocks, block.offset ≤ position ∧ position < block.offset + block.length
  meets : ∀ block ∈ blocks, block.offset < stop ∧ offset < block.offset + block.length
  empty : stop ≤ offset → blocks = []

/-- The `k`-th block from `start` on. -/
def tile (state : CachedHandle) (blockSize start k : ℕ) : RangeKey :=
  ⟨⟨state.node, state.revision⟩, start + k * blockSize,
    min blockSize (state.size - (start + k * blockSize))⟩

section Blocks

variable {policy : CachePolicy} {state : CachedHandle} {blockSize offset length stop start : ℕ}
  {blocks : List RangeKey}

/-- The loop goes through the blocks that start before the end of the read. -/
theorem of_blocksLoop (hpos : 0 < blockSize) (hsize : blockSize ≤ policy.blockSize) {rounds : ℕ}
    (hrounds : stop ≤ start + rounds)
    (h : blocksLoop policy state stop blockSize rounds start = .ok blocks) :
    ∃ n, blocks = (List.range n).map (tile state blockSize start) ∧
      ∀ k, k < n ↔ start + k * blockSize < stop := by
  induction rounds generalizing start blocks with
  | zero =>
    cases h
    exact ⟨0, rfl, fun k => by omega⟩
  | succ _ ih =>
    rw [blocksLoop] at h
    split at h
    · rename_i hlt
      dsimp only at h
      split at h
      · cases h
      rename_i next hnext
      split at h
      · rename_i rest hrest
        cases h
        cases eq_add_of_checkedAdd hnext
        obtain ⟨n, rfl, hn⟩ := ih (by omega) hrest
        refine ⟨n + 1, ?_, fun k => ?_⟩
        · rw [List.range_succ_eq_map, List.map_cons, List.map_map, tile, Nat.zero_mul,
            Nat.add_zero, Nat.min_eq_right hsize]
          refine congrArg _ (List.map_congr_left fun k _ => ?_)
          rw [Function.comp, tile, tile, Nat.succ_mul, Nat.add_assoc, Nat.add_comm blockSize]
        · cases k with
          | zero => omega
          | succ =>
            rw [Nat.succ_lt_succ_iff, hn, Nat.succ_mul]
            omega
      · cases h
    · cases h
      exact ⟨0, rfl, fun k => by omega⟩

/-- It does not fail as long as there is room for one block more. -/
theorem blocksLoop_ok (hroom : stop + blockSize ≤ u64Max) (rounds : ℕ) :
    ∃ blocks, blocksLoop policy state stop blockSize rounds start = .ok blocks := by
  induction rounds generalizing start with
  | zero => exact ⟨[], rfl⟩
  | succ _ ih =>
    rw [blocksLoop]
    split
    · obtain ⟨rest, hrest⟩ := @ih (start + blockSize)
      rw [checkedAdd, if_pos (by omega)]
      dsimp only
      rw [hrest]
      exact ⟨_, rfl⟩
    · exact ⟨[], rfl⟩

/-- The blocks that start before the end of a read, from the one it starts in, tile it. -/
theorem tiling_range (hpos : 0 < blockSize) (hstop : stop ≤ state.size) (hoffset : offset < stop)
    {n : ℕ} (hn : ∀ k, k < n ↔ offset / blockSize * blockSize + k * blockSize < stop) :
    Tiling state blockSize offset stop
      ((List.range n).map (tile state blockSize (offset / blockSize * blockSize))) := by
  have hle := Nat.div_mul_le_self offset blockSize
  have hlt : offset < offset / blockSize * blockSize + blockSize := Nat.lt_div_mul_add hpos
  have hdvd : blockSize ∣ offset / blockSize * blockSize := Nat.dvd_mul_left _ _
  generalize offset / blockSize * blockSize = start at hn hle hlt hdvd
  have hmem : ∀ {P : RangeKey → Prop}, (∀ k, start + k * blockSize < stop →
      P (tile state blockSize start k)) →
      ∀ block ∈ (List.range n).map (tile state blockSize start), P block := by
    intro P hP block hblock
    obtain ⟨k, hk, rfl⟩ := List.mem_map.1 hblock
    exact hP k ((hn k).1 (List.mem_range.1 hk))
  constructor
  case file => exact hmem fun _ _ => rfl
  case aligned => exact hmem fun k _ => Nat.dvd_add hdvd (Nat.dvd_mul_left _ _)
  case nonempty =>
    refine hmem fun k hk => ?_
    dsimp only [tile]
    omega
  case within =>
    refine hmem fun k hk => ?_
    dsimp only [tile]
    omega
  case contiguous =>
    intro k hk
    rw [List.length_map, List.length_range, hn, Nat.succ_mul] at hk
    simp only [List.getElem_map, List.getElem_range, tile, Nat.succ_mul]
    omega
  case disjoint =>
    refine List.pairwise_map.2 (List.pairwise_lt_range.imp fun {j k} hjk => ?_)
    have hstep : (j + 1) * blockSize ≤ k * blockSize := Nat.mul_le_mul_right _ hjk
    rw [Nat.succ_mul] at hstep
    dsimp only [tile]
    omega
  case covers =>
    intro position hposition hbefore
    have hdiv := Nat.div_mul_le_self (position - start) blockSize
    have hmod := Nat.lt_div_mul_add (a := position - start) hpos
    refine ⟨_, List.mem_map.2 ⟨(position - start) / blockSize, ?_, rfl⟩, ?_⟩
    · rw [List.mem_range, hn]
      omega
    · dsimp only [tile]
      omega
  case meets =>
    refine hmem fun k hk => ⟨hk, ?_⟩
    dsimp only [tile]
    omega
  case empty => exact fun h => absurd hoffset h.not_gt

theorem demandBlockSize_pos : 0 < demandBlockSize policy length := by
  have hpos := policy.blockSize_pos
  rw [demandBlockSize, smallReadAheadBlockSize]
  split <;> omega

theorem demandBlockSize_le : demandBlockSize policy length ≤ policy.blockSize := by
  rw [demandBlockSize]
  split <;> omega

/-- What `blocks_for` returns tiles the part of the read that is in the file. -/
theorem tiling_of_blocksFor (h : blocksFor policy state offset length = .ok blocks) :
    Tiling state (demandBlockSize policy length) offset
      (offset + min length (state.size - offset)) blocks := by
  rw [blocksFor] at h
  split at h
  · cases h
  dsimp only at h
  split at h
  · cases h
    exact ⟨by simp, by simp, by simp, by simp, by simp, .nil, by omega, by simp, fun _ => rfl⟩
  split at h
  · cases h
  rename_i stop hstop
  cases eq_add_of_checkedAdd hstop
  obtain ⟨n, rfl, hn⟩ := of_blocksLoop demandBlockSize_pos demandBlockSize_le (by omega) h
  exact tiling_range demandBlockSize_pos (by omega) (by omega) hn

/-- **A read is tiled by its blocks.**  If its end fits into 64 bits and the size of the file into
63, `blocks_for` returns blocks that tile what there is of the read in the file. -/
theorem blocks_tile (hsize : state.size ≤ i64Max) (hfits : offset + length ≤ u64Max) :
    ∃ blocks, blocksFor policy state offset length = .ok blocks ∧
      Tiling state (demandBlockSize policy length) offset
        (offset + min length (state.size - offset)) blocks := by
  have hblocks : ∃ blocks, blocksFor policy state offset length = .ok blocks := by
    rw [blocksFor, checkedAdd, if_pos hfits]
    dsimp only
    split
    · exact ⟨[], rfl⟩
    rw [checkedAdd, if_pos (by omega)]
    have hle : demandBlockSize policy length ≤ policy.blockSize := demandBlockSize_le
    have hlimit := policy.blockSize_le
    refine blocksLoop_ok ?_ _
    rw [i64Max] at hsize
    rw [maxClientReadSize] at hlimit
    rw [u64Max]
    omega
  obtain ⟨blocks, h⟩ := hblocks
  exact ⟨blocks, h, tiling_of_blocksFor h⟩

/-- A file of forty bytes in blocks of sixteen: a read of bytes 20 to 34 takes two of them. -/
theorem blocks_tile_forty : (40 : ℕ) ≤ i64Max ∧
    ∃ blocks, blocksFor ⟨16, 0, by decide, by decide⟩ ⟨1, none, 1, 40, 0, 0⟩ 20 15 = .ok blocks ∧
      Tiling ⟨1, none, 1, 40, 0, 0⟩ 16 20 35 blocks :=
  ⟨by decide, blocks_tile (by decide) (by decide)⟩

end Blocks

end QuickFS.Cached
