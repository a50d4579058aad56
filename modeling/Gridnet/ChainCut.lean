import Gridnet.ChainInStep

/-! Cutting the heaviest chain: `CBlockchainManager::cutHeaviest` with `setPath` and `setChainProof`, which
save to solid storage what is left, and exactly when everything that is kept in step with the heaviest
chain-proof is cut with it. -/

namespace Gridnet

variable {Trie : Type}

/-- `std::vector::resize`: the front of a list, or the list filled up with empty elements. -/
def resized {α : Type} (l : List α) (n : ℕ) (empty : α) : List α :=
  l.take n ++ List.replicate (n - l.length) empty

namespace HeaviestChain

variable (solidStorage : WriteState) (heaviest : HeaviestChain Trie)

/-- The loop over the chain-proof that is left. Its body is a comment: it adds nothing. -/
def newTotalDifficulty (chainProof : List Bytes) : ℕ :=
  chainProof.foldl (fun newTotalDifficulty _ => newTotalDifficulty) 0

/-- `CBlockchainManager::cutHeaviest`. -/
def cutHeaviest (height : ℕ) : Bool × HeaviestChain Trie :=
  if height = 0 then (false, heaviest)
  else if heaviest.mHeaviestChainProof.length ≤ height ∨ heaviest.mHeaviestPath.length ≤ height then
    (false, heaviest)
  else
    let cut :=
      { heaviest with
        mHeaviestChainProof := resized heaviest.mHeaviestChainProof (height + 1) []
        mHeaviestPath := resized heaviest.mHeaviestPath (height + 1) []
        mHeaviestPathDouble := resized heaviest.mHeaviestPathDouble (height + 1) [] }
    let recalculated :=
      { cut with mHeaviestChainProofTotalDifficulty := newTotalDifficulty cut.mHeaviestChainProof }
    let saved :=
      (recalculated.setPath solidStorage recalculated.mHeaviestPath true true).setChainProof
        solidStorage recalculated.mHeaviestChainProof true none true
    (true,
      { saved with
        mHeaviestChainProofCumulativePoWs :=
          resized saved.mHeaviestChainProofCumulativePoWs (height + 1) 0 })

/-! ### What a cut should leave -/

/-- The path, its copy and the list of cumulative work are those of the chain-proof, and as long. -/
structure OneChain (services : HeaderServices Trie) : Prop where
  path : heaviest.mHeaviestPath = heaviest.mHeaviestChainProof.map services.getSHA2_256Vec
  pathDouble : heaviest.mHeaviestPathDouble = heaviest.mHeaviestChainProof.map services.getSHA2_256Vec
  works : heaviest.mHeaviestChainProofCumulativePoWs = worksOf services heaviest.mHeaviestChainProof

/-- Everything that is kept in step with the heaviest chain-proof is cut behind a height, and what is
stored is what is in memory. -/
structure CutAt (before after : HeaviestChain Trie) (height : ℕ) : Prop where
  chainProof : after.mHeaviestChainProof = before.mHeaviestChainProof.take (height + 1)
  path : after.mHeaviestPath = before.mHeaviestPath.take (height + 1)
  pathDouble : after.mHeaviestPathDouble = before.mHeaviestPathDouble.take (height + 1)
  works : after.mHeaviestChainProofCumulativePoWs =
    before.mHeaviestChainProofCumulativePoWs.take (height + 1)
  total : before.mHeaviestChainProofCumulativePoWs[height]? =
    some after.mHeaviestChainProofTotalDifficulty
  index : ∀ id ∈ before.mHeaviestPath.drop (height + 1), id ∉ after.mHeaviestKeyBlockIDsAtHeights
  storedPath : after.storedPath = after.mHeaviestPath
  storedChainProof : after.storedChainProof = after.mHeaviestChainProof

/-- A call is refused, and nothing is changed, at height zero and where the chain has no block; otherwise
the chain is cut. -/
def CutsConsistently (height : ℕ) : Prop :=
  if height = 0 ∨ heaviest.mHeaviestChainProof.length ≤ height then
    heaviest.cutHeaviest solidStorage height = (false, heaviest)
  else
    (heaviest.cutHeaviest solidStorage height).1 = true ∧
      CutAt heaviest (heaviest.cutHeaviest solidStorage height).2 height

/-- What the node must hold for a cut to leave it consistent: no work up to the height, no later block in
the index, and a storage that takes what is saved or has it. -/
structure CutHarmless (services : HeaderServices Trie) (height : ℕ) : Prop where
  total : workUpTo services heaviest.mHeaviestChainProof (height + 1) = 0
  index : ∀ id ∈ heaviest.mHeaviestPath.drop (height + 1), id ∉ heaviest.mHeaviestKeyBlockIDsAtHeights
  storedPath : solidStorage.saveByteVectors "heaviestPath" = true ∨
    heaviest.storedPath = heaviest.mHeaviestPath.take (height + 1)
  storedChainProof :
    solidStorage.getIsRestartNeeded = false ∧ solidStorage.saveByteVectors "heaviestChainProof" = true ∨
      heaviest.storedChainProof = heaviest.mHeaviestChainProof.take (height + 1)

variable {solidStorage heaviest}

/-! ### The parts of a cut -/

theorem resized_of_lt {α : Type} {l : List α} {n : ℕ} (hn : n < l.length) (empty : α) :
    resized l (n + 1) empty = l.take (n + 1) := by
  have hnothing : n + 1 - l.length = 0 := by omega
  simp [resized, hnothing]

/-- The new total is zero, whatever is left. -/
theorem newTotalDifficulty_eq (chainProof : List Bytes) : newTotalDifficulty chainProof = 0 := by
  unfold newTotalDifficulty
  induction chainProof with
  | nil => rfl
  | cons bytes rest ih => exact ih

/-- Saving to solid storage alone leaves the memory as it is. -/
theorem setPath_cold (path : List Bytes) :
    heaviest.setPath solidStorage path true true =
      { heaviest with
        storedPath :=
          if solidStorage.saveByteVectors "heaviestPath" then path else heaviest.storedPath } := by
  cases hsaves : solidStorage.saveByteVectors "heaviestPath" <;> simp [setPath, hsaves]

theorem setChainProof_cold (proof : List Bytes) :
    heaviest.setChainProof solidStorage proof true none true =
      { heaviest with
        storedChainProof :=
          if !solidStorage.getIsRestartNeeded && solidStorage.saveByteVectors "heaviestChainProof" then
            proof
          else heaviest.storedChainProof } := by
  cases hsaves : !solidStorage.getIsRestartNeeded &&
    solidStorage.saveByteVectors "heaviestChainProof" <;> simp [setChainProof, hsaves]

variable {services : HeaderServices Trie}

theorem OneChain.length_path (hchain : heaviest.OneChain services) :
    heaviest.mHeaviestPath.length = heaviest.mHeaviestChainProof.length := by
  rw [hchain.path, List.length_map]

theorem OneChain.length_pathDouble (hchain : heaviest.OneChain services) :
    heaviest.mHeaviestPathDouble.length = heaviest.mHeaviestChainProof.length := by
  rw [hchain.pathDouble, List.length_map]

theorem OneChain.length_works (hchain : heaviest.OneChain services) :
    heaviest.mHeaviestChainProofCumulativePoWs.length = heaviest.mHeaviestChainProof.length := by
  rw [hchain.works, worksOf_length]

theorem cutHeaviest_refused {height : ℕ}
    (hrefused : height = 0 ∨ heaviest.mHeaviestChainProof.length ≤ height) :
    heaviest.cutHeaviest solidStorage height = (false, heaviest) := by
  unfold cutHeaviest
  by_cases hzero : height = 0
  · rw [if_pos hzero]
  · rw [if_neg hzero, if_pos (.inl (hrefused.resolve_left hzero))]

/-- What a cut leaves: four fronts, no total, the index as it was. -/
theorem cutHeaviest_eq (hchain : heaviest.OneChain services) {height : ℕ} (hpos : height ≠ 0)
    (hlt : height < heaviest.mHeaviestChainProof.length) :
    heaviest.cutHeaviest solidStorage height =
      (true,
        { heaviest with
          mHeaviestChainProof := heaviest.mHeaviestChainProof.take (height + 1)
          mHeaviestPath := heaviest.mHeaviestPath.take (height + 1)
          mHeaviestPathDouble := heaviest.mHeaviestPathDouble.take (height + 1)
          mHeaviestChainProofCumulativePoWs :=
            heaviest.mHeaviestChainProofCumulativePoWs.take (height + 1)
          mHeaviestChainProofTotalDifficulty := 0
          storedPath :=
            if solidStorage.saveByteVectors "heaviestPath" then heaviest.mHeaviestPath.take (height + 1)
            else heaviest.storedPath
          storedChainProof :=
            if !solidStorage.getIsRestartNeeded && solidStorage.saveByteVectors "heaviestChainProof" then
              heaviest.mHeaviestChainProof.take (height + 1)
            else heaviest.storedChainProof }) := by
  have hpath := hchain.length_path
  have hpathDouble := hchain.length_pathDouble
  have hworks := hchain.length_works
  unfold cutHeaviest
  rw [if_neg hpos, if_neg (by omega)]
  simp only [setPath_cold, setChainProof_cold, newTotalDifficulty_eq]
  rw [resized_of_lt hlt, resized_of_lt (by omega), resized_of_lt (by omega), resized_of_lt (by omega)]

/-! ### The whole cut -/

theorem ite_eq_iff_of_bool {α : Type} {saves : Bool} {new old : α} :
    (if saves then new else old) = new ↔ saves = true ∨ old = new := by
  cases saves <;> simp

/-- A cut leaves everything consistent exactly where there is no work to be lost, no later key block in the
index, and the storage has what is left. -/
theorem cutsConsistently_iff (services : HeaderServices Trie) (solidStorage : WriteState)
    (heaviest : HeaviestChain Trie) (hchain : heaviest.OneChain services) (height : ℕ) :
    heaviest.CutsConsistently solidStorage height ↔
      (height ≠ 0 → height < heaviest.mHeaviestChainProof.length →
        heaviest.CutHarmless solidStorage services height) := by
  unfold CutsConsistently
  by_cases hrefused : height = 0 ∨ heaviest.mHeaviestChainProof.length ≤ height
  · rw [if_pos hrefused]
    refine iff_of_true (cutHeaviest_refused hrefused) ?_
    intro hpos hlt
    exact absurd hrefused (by omega)
  · rw [if_neg hrefused]
    push Not at hrefused
    obtain ⟨hpos, hlt⟩ := hrefused
    have hwork : heaviest.mHeaviestChainProofCumulativePoWs[height]? =
        some (workUpTo services heaviest.mHeaviestChainProof (height + 1)) := by
      rw [hchain.works]
      exact worksOf_getElem? hlt
    rw [cutHeaviest_eq hchain hpos hlt]
    constructor
    · rintro ⟨-, hcut⟩ - -
      refine ⟨?_, hcut.index, ite_eq_iff_of_bool.mp hcut.storedPath, ?_⟩
      · exact Option.some.inj (hwork.symm.trans hcut.total)
      · simpa using ite_eq_iff_of_bool.mp hcut.storedChainProof
    · intro hharmless
      obtain ⟨htotal, hindex, hstoredPath, hstoredChainProof⟩ := hharmless hpos hlt
      refine ⟨rfl, rfl, rfl, rfl, rfl, ?_, hindex, ite_eq_iff_of_bool.mpr hstoredPath, ?_⟩
      · rw [hwork, htotal]
      · apply ite_eq_iff_of_bool.mpr
        simpa using hstoredChainProof

/-! ### A chain of three blocks -/

/-- Three key blocks, all of them in the index. -/
def threeBlocks : HeaviestChain Unit where
  mHeaviestChainProof := [[0], [1], [2]]
  mHeaviestPath := [[0], [1], [2]]
  mHeaviestPathDouble := [[0], [1], [2]]
  mHeaviestChainProofCumulativePoWs := [1, 2, 3]
  mHeaviestChainProofTotalDifficulty := 3
  mHeaviestChainProofLeaderBlock := some (loneHeader 2)
  mHeaviestChainProofLeaderKeyBlock := some (loneHeader 2)
  mHeaviestChainProofLeadingBlockID := [2]
  mHeaviestKeyBlockIDsAtHeights := [[0], [1], [2]]
  storedPath := [[0], [1], [2]]
  storedChainProof := [[0], [1], [2]]

theorem threeBlocks_oneChain : threeBlocks.OneChain loneServices := ⟨rfl, rfl, rfl⟩

/-- Three key blocks without work, the last of them not in the index. -/
def weightlessBlocks : HeaviestChain Unit :=
  { threeBlocks with
    mHeaviestChainProofCumulativePoWs := [0, 0, 0]
    mHeaviestChainProofTotalDifficulty := 0
    mHeaviestKeyBlockIDsAtHeights := [[0], [1]] }

def weightlessServices : HeaderServices Unit := { loneServices with getDifficulty := fun _ => 0 }

/-- A cut behind the second of them, and the heights that are refused. -/
theorem weightlessBlocks_cut :
    weightlessBlocks.CutsConsistently openStorage 1 ∧ weightlessBlocks.CutsConsistently openStorage 0 ∧
      weightlessBlocks.CutsConsistently openStorage 3 := by
  have hchain : weightlessBlocks.OneChain weightlessServices := ⟨rfl, rfl, rfl⟩
  refine ⟨?_, ?_, ?_⟩
  · refine (cutsConsistently_iff weightlessServices openStorage weightlessBlocks hchain 1).mpr fun _ _ => ?_
    exact ⟨rfl, by decide, .inl rfl, .inl ⟨rfl, rfl⟩⟩
  · refine (cutsConsistently_iff weightlessServices openStorage weightlessBlocks hchain 0).mpr ?_
    intro hpos
    exact absurd rfl hpos
  · refine (cutsConsistently_iff weightlessServices openStorage weightlessBlocks hchain 3).mpr ?_
    intro _ hlt
    exact absurd hlt (by decide)

/-- A cut behind the second block: the total is lost and the third block stays in the index. -/
theorem not_cutsConsistently :
    threeBlocks.OneChain loneServices ∧
      (threeBlocks.cutHeaviest openStorage 1).1 = true ∧
      (threeBlocks.cutHeaviest openStorage 1).2.mHeaviestChainProofCumulativePoWs = [1, 2] ∧
      (threeBlocks.cutHeaviest openStorage 1).2.mHeaviestChainProofTotalDifficulty = 0 ∧
      (threeBlocks.cutHeaviest openStorage 1).2.mHeaviestKeyBlockIDsAtHeights = [[0], [1], [2]] ∧
      ¬ threeBlocks.CutsConsistently openStorage 1 := by
  refine ⟨threeBlocks_oneChain, rfl, rfl, rfl, rfl, ?_⟩
  intro hconsistent
  have hcut : CutAt threeBlocks (threeBlocks.cutHeaviest openStorage 1).2 1 := hconsistent.2
  have hkept : [2] ∈ threeBlocks.mHeaviestPath.drop 2 := List.mem_singleton.mpr rfl
  exact hcut.index [2] hkept (by decide)

end HeaviestChain

end Gridnet
