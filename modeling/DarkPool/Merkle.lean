import DarkPool.Admission

namespace DarkPool

/-- Errors of the witness pipeline; `leg` names the field of the message and leaves out
the printed cause. -/
inductive ZkError
  | witness (msg : String)
  | leg (field : String)
  | encoding (e : EncodingError)
  deriving DecidableEq

def merkleDepth : Nat := 8

def merkleLeaves : Nat := 2 ^ merkleDepth

def emptyLeaf : Fr := 0

structure MerkleProof where
  siblings : List Fr
  indexBits : List Bool
  deriving DecidableEq

def MerkleProof.default : MerkleProof := ⟨List.replicate merkleDepth 0, List.replicate merkleDepth false⟩

/-- Sorted by field value and padded to a full tree. -/
def canonicalLeaves (commitments : List Fr) : Except ZkError (List Fr) :=
  if merkleLeaves < commitments.length then
    .error (.witness ("admitted set of " ++ toString commitments.length ++ " orders exceeds Merkle capacity " ++
      toString merkleLeaves ++ " (depth " ++ toString merkleDepth ++ ")"))
  else if commitments.any (fun c => c = emptyLeaf) then
    .error (.witness "admitted-set commitment collides with the empty (padding) leaf")
  else
    let leaves := commitments.insertionSort (fun a b => a.val ≤ b.val)
    .ok (leaves ++ List.replicate (merkleLeaves - leaves.length) emptyLeaf)

section Tree

variable (env : Env)

def hashTwoNative (a b : Fr) : Fr := env.poseidon [a, b]

def hashPairs : List Fr → List Fr
  | a :: b :: rest => hashTwoNative env a b :: hashPairs rest
  | _ => []

/-- Every level bottom-up, the padded leaves first. -/
def buildLevels : Nat → List Fr → List (List Fr)
  | 0, nodes => [nodes]
  | d + 1, nodes => nodes :: buildLevels d (hashPairs env nodes)

def levelNode (levels : List (List Fr)) (d i : Nat) : Fr := (levels.getD d []).getD i 0

def admittedSetRoot (commitments : List Fr) : Except ZkError Fr := do
  let leaves ← canonicalLeaves commitments
  return levelNode (buildLevels env merkleDepth leaves) merkleDepth 0

/-- The path of the leaf at `idx`: at each level the sibling and whether the node is a right child. -/
def pathAt (levels : List (List Fr)) (idx : Nat) : MerkleProof where
  siblings := (List.range merkleDepth).map (fun d =>
    let node := idx / 2 ^ d
    levelNode levels d (if node % 2 = 1 then node - 1 else node + 1))
  indexBits := (List.range merkleDepth).map (fun d => idx / 2 ^ d % 2 = 1)

def admittedSetProof (commitments : List Fr) (leaf : Fr) : Except ZkError (Option (Fr × MerkleProof)) := do
  let leaves ← canonicalLeaves commitments
  match leaves.findIdx? (fun l => l = leaf) with
  | none => return none
  | some idx =>
    let levels := buildLevels env merkleDepth leaves
    return some (levelNode levels merkleDepth 0, pathAt levels idx)

end Tree

end DarkPool
