import Blocx.Primitives.Uint256

/-!
# Merkle roots

`ComputeMerkleRoot` hashes the pairs of a list of hashes, level by level, until one is left; the last one of an odd
level is paired with itself. Lists that differ in such repetitions have one root, so two equal hashes in a pair of some
level are reported as a mutation. Without a mutation the root determines the list, provided that no two pairs of the two
trees collide and no leaf is the hash of such a pair: where one list is down to one hash and the other is not, that hash
would be the hash of a pair of the other tree, and its parts would be so too, down to a leaf. The empty list stands
apart: its root is zero, which any leaf may be.
-/

namespace Blocx

open List

/-- The pairs that are hashed on a level. -/
def pairUp : List Uint256 → List (Uint256 × Uint256)
  | a :: b :: rest => (a, b) :: pairUp rest
  | [a] => [(a, a)]
  | [] => []

/-- Two hashes of a pair are equal; the one that an odd level repeats does not count. -/
def levelMutated : List Uint256 → Bool
  | a :: b :: rest => a = b || levelMutated rest
  | _ => false

lemma length_pairUp (l : List Uint256) : (pairUp l).length = (l.length + 1) / 2 := by
  induction l using pairUp.induct with
  | case1 a b rest ih =>
    rw [pairUp, length_cons, ih, length_cons, length_cons]
    omega
  | case2 a | case3 => simp [pairUp]

variable {p : Uint256 × Uint256} {l : List Uint256}

lemma fst_mem_of_mem_pairUp (h : p ∈ pairUp l) : p.1 ∈ l := by
  induction l using pairUp.induct with
  | case1 a b rest ih =>
    obtain rfl | h := mem_cons.mp h
    · exact mem_cons_self
    · exact mem_cons_of_mem _ (mem_cons_of_mem _ (ih h))
  | case2 a => simp_all [pairUp]
  | case3 => cases h

/-- The pairs determine a level without a mutation. -/
lemma pairUp_inj {l' : List Uint256} (h : pairUp l = pairUp l') (hl : levelMutated l = false)
    (hl' : levelMutated l' = false) : l = l' := by
  induction l using pairUp.induct generalizing l' with
  | case1 a b rest ih =>
    rcases l' with _ | ⟨a', _ | ⟨b', rest'⟩⟩
    · cases h
    · simp_all [pairUp, levelMutated]
    · simp only [levelMutated, Bool.or_eq_false_iff] at hl hl'
      simp only [pairUp, cons.injEq, Prod.mk.injEq] at h
      rw [h.1.1, h.1.2, ih h.2 hl.2 hl'.2]
  | case2 a =>
    rcases l' with _ | ⟨a', _ | ⟨b', rest'⟩⟩
    · cases h
    · simp_all [pairUp]
    · simp only [pairUp, cons.injEq, Prod.mk.injEq] at h
      simp [levelMutated, ← h.1.1, h.1.2] at hl'
  | case3 =>
    rcases l' with _ | ⟨a', _ | ⟨b', rest'⟩⟩
    · rfl
    · cases h
    · cases h

section Tree

variable (hash : Uint256 × Uint256 → Uint256)

/-- The next level: `SHA256D64` of the 64 bytes of each pair. -/
def nextLevel (l : List Uint256) : List Uint256 := (pairUp l).map hash

lemma length_nextLevel_lt (a b : Uint256) (l : List Uint256) :
    (nextLevel hash (a :: b :: l)).length < (a :: b :: l).length := by
  rw [nextLevel, length_map, length_pairUp, length_cons, length_cons]
  omega

def merkleLoop (mutation : Bool) : List Uint256 → Uint256 × Bool
  | [] => (0, mutation)
  | [root] => (root, mutation)
  | a :: b :: rest => merkleLoop (mutation || levelMutated (a :: b :: rest)) (nextLevel hash (a :: b :: rest))
termination_by l => l.length
decreasing_by exact length_nextLevel_lt hash a b rest

def computeMerkleRoot (hashes : List Uint256) : Uint256 × Bool := merkleLoop hash false hashes

def hashedPairs : List Uint256 → List (Uint256 × Uint256)
  | a :: b :: rest => pairUp (a :: b :: rest) ++ hashedPairs (nextLevel hash (a :: b :: rest))
  | _ => []
termination_by l => l.length
decreasing_by exact length_nextLevel_lt hash a b rest

/-- No two of the pairs collide. -/
def PairsApart (pairs : List (Uint256 × Uint256)) : Prop := ∀ p ∈ pairs, ∀ q ∈ pairs, hash p = hash q → p = q

def NoNode (l : List Uint256) (pairs : List (Uint256 × Uint256)) : Prop := ∀ x ∈ l, ∀ p ∈ pairs, x ≠ hash p

/-! ### What stands in a tree -/

/-- A hash of the tree over a list. -/
def InTree (l : List Uint256) (x : Uint256) : Prop := x ∈ l ∨ ∃ p ∈ hashedPairs hash l, x = hash p

variable {hash} {a b x : Uint256} {m m' : Bool}

/-- What stands above the leaves is the hash of a pair. -/
lemma exists_pair_of_inTree (h : InTree hash (nextLevel hash (a :: b :: l)) x) :
    ∃ p ∈ hashedPairs hash (a :: b :: l), x = hash p := by
  rw [hashedPairs]
  obtain hx | ⟨p, hp, rfl⟩ := h
  · obtain ⟨p, hp, rfl⟩ := mem_map.mp hx
    exact ⟨p, mem_append_left _ hp, rfl⟩
  · exact ⟨p, mem_append_right _ hp, rfl⟩

lemma inTree_fst (h : p ∈ hashedPairs hash l) : InTree hash l p.1 := by
  induction l using hashedPairs.induct hash with
  | case1 a b rest ih =>
    rw [hashedPairs, mem_append] at h
    obtain h | h := h
    · exact .inl (fst_mem_of_mem_pairUp h)
    · exact .inr (exists_pair_of_inTree (ih h))
  | case2 l hshort =>
    rw [hashedPairs.eq_2 hash l hshort] at h
    cases h

lemma inTree_root (m : Bool) (h : l ≠ []) : InTree hash l (merkleLoop hash m l).1 := by
  induction m, l using merkleLoop.induct hash with
  | case1 m => exact absurd rfl h
  | case2 m root =>
    rw [merkleLoop]
    exact .inl mem_cons_self
  | case3 m a b rest ih =>
    rw [merkleLoop]
    exact .inr (exists_pair_of_inTree (ih (by simp [nextLevel, pairUp])))

lemma ne_root (h : NoNode hash [x] (hashedPairs hash (a :: b :: l))) : x ≠ (merkleLoop hash m (a :: b :: l)).1 := by
  rw [merkleLoop]
  have hne : nextLevel hash (a :: b :: l) ≠ [] := by simp [nextLevel, pairUp]
  obtain ⟨p, hp, heq⟩ := exists_pair_of_inTree (inTree_root _ hne)
  rw [heq]
  exact h x mem_cons_self p hp

lemma mutation_eq_false (h : (merkleLoop hash m l).2 = false) : m = false := by
  induction m, l using merkleLoop.induct hash with
  | case1 m | case2 m root =>
    rw [merkleLoop] at h
    exact h
  | case3 m a b rest ih =>
    rw [merkleLoop] at h
    exact (Bool.or_eq_false_iff.mp (ih h)).1

/-! ### The root determines the list -/

variable {pairs : List (Uint256 × Uint256)} {l' : List Uint256} (hfree : PairsApart hash pairs)

include hfree

/-- If the leaves of one tree are no nodes of the other, the same holds one level up. -/
lemma NoNode.next (hl : pairUp l ⊆ pairs) (hl' : hashedPairs hash (nextLevel hash (a :: b :: l')) ⊆ pairs)
    (h : NoNode hash l (hashedPairs hash (a :: b :: l'))) :
    NoNode hash (nextLevel hash l) (hashedPairs hash (nextLevel hash (a :: b :: l'))) := by
  intro x hx p hp heq
  obtain ⟨q, hq, rfl⟩ := mem_map.mp hx
  obtain rfl := hfree q (hl hq) p (hl' hp) heq
  -- the first hash of the pair stands in the one list and above the leaves of the other tree
  obtain ⟨p, hp', heq'⟩ := exists_pair_of_inTree (inTree_fst hp)
  exact h q.1 (fst_mem_of_mem_pairUp hq) p hp' heq'

lemma eq_of_map_hash_eq {ps qs : List (Uint256 × Uint256)} (hps : ps ⊆ pairs)
    (hqs : qs ⊆ pairs) (h : ps.map hash = qs.map hash) : ps = qs := by
  induction ps generalizing qs with
  | nil => exact (map_eq_nil_iff.mp h.symm).symm
  | cons p ps ih =>
    obtain ⟨q, qs, rfl, hq, htail⟩ := map_eq_cons_iff.mp h.symm
    rw [cons_subset] at hps hqs
    rw [hfree q hqs.1 p hps.1 hq, ih hps.2 hqs.2 htail.symm]

lemma eq_of_root_eq (hl : hashedPairs hash l ⊆ pairs)
    (hl' : hashedPairs hash l' ⊆ pairs) (h : NoNode hash l (hashedPairs hash l'))
    (h' : NoNode hash l' (hashedPairs hash l)) (hm : (merkleLoop hash m l).2 = false)
    (hm' : (merkleLoop hash m' l').2 = false) (hroot : (merkleLoop hash m l).1 = (merkleLoop hash m' l').1)
    (hempty : l = [] ↔ l' = []) : l = l' := by
  induction m, l using merkleLoop.induct hash generalizing m' l' with
  | case1 m => exact (hempty.mp rfl).symm
  | case2 m root =>
    rcases l' with _ | ⟨a', _ | ⟨b', rest'⟩⟩
    · exact absurd rfl (mt hempty.mpr (by simp))
    · rw [merkleLoop, merkleLoop] at hroot
      exact congrArg ([·]) hroot
    · rw [merkleLoop] at hroot
      exact absurd hroot (ne_root h)
  | case3 m a b rest ih =>
    rcases l' with _ | ⟨a', _ | ⟨b', rest'⟩⟩
    · exact absurd rfl (mt hempty.mpr (by simp))
    · rw [merkleLoop.eq_2] at hroot
      exact absurd hroot.symm (ne_root h')
    · rw [hashedPairs, append_subset] at hl hl'
      rw [merkleLoop] at hm hm' hroot
      rw [merkleLoop] at hroot
      have hnext := ih hl.2 hl'.2 (h.next hfree hl.1 hl'.2) (h'.next hfree hl'.1 hl.2) hm hm' hroot
        (by simp [nextLevel, pairUp])
      exact pairUp_inj (eq_of_map_hash_eq hfree hl.1 hl'.1 hnext) (Bool.or_eq_false_iff.mp (mutation_eq_false hm)).2
        (Bool.or_eq_false_iff.mp (mutation_eq_false hm')).2

end Tree

/-- For all lists of hashes without a mutation, equal roots imply equal lists, except that an empty list may have the
root of another one; and a list that repeats a block of leaves at its end and keeps the root is reported. -/
theorem computeMerkleRoot_commits (hash : Uint256 × Uint256 → Uint256) (l l' : List Uint256)
    (hfree : PairsApart hash (hashedPairs hash l ++ hashedPairs hash l'))
    (hnode : NoNode hash (l ++ l') (hashedPairs hash l ++ hashedPairs hash l'))
    (hunmutated : (computeMerkleRoot hash l).2 = false)
    (hroot : (computeMerkleRoot hash l).1 = (computeMerkleRoot hash l').1) :
    ((computeMerkleRoot hash l').2 = false → (l = [] ↔ l' = []) → l = l') ∧
      ∀ block k, block ≠ [] → block <:+ l → l' = l ++ (replicate (k + 1) block).flatten →
        (computeMerkleRoot hash l').2 = true := by
  have hcommits : (computeMerkleRoot hash l').2 = false → (l = [] ↔ l' = []) → l = l' := by
    intro hunmutated' hempty
    refine eq_of_root_eq hfree (subset_append_left _ _) (subset_append_right _ _) ?_ ?_ hunmutated hunmutated'
      hroot hempty
    · exact fun x hx p hp => hnode x (mem_append_left _ hx) p (mem_append_right _ hp)
    · exact fun x hx p hp => hnode x (mem_append_right _ hx) p (mem_append_left _ hp)
  refine ⟨hcommits, fun block k hblock hsuffix hl' => ?_⟩
  by_contra hunmutated'
  have hne : l ≠ [] := fun hnil => hblock (suffix_nil.mp (hnil ▸ hsuffix))
  have heq := hcommits (Bool.eq_false_iff.mpr hunmutated') (by simp [hl', hne])
  rw [hl', self_eq_append_right, replicate_succ, flatten_cons, append_eq_nil_iff] at heq
  exact hblock heq.1

def toyPairHash (p : Uint256 × Uint256) : Uint256 := p.1 * 100 + p.2

/-- The empty list and the list of one leaf, which is zero, have one root. -/
theorem computeMerkleRoot_empty :
    PairsApart toyPairHash (hashedPairs toyPairHash [] ++ hashedPairs toyPairHash [0]) ∧
      NoNode toyPairHash ([] ++ [0]) (hashedPairs toyPairHash [] ++ hashedPairs toyPairHash [0]) ∧
      computeMerkleRoot toyPairHash [] = (0, false) ∧ computeMerkleRoot toyPairHash [0] = (0, false) := by
  simp [computeMerkleRoot, merkleLoop, hashedPairs, PairsApart, NoNode]

theorem computeMerkleRoot_commits_repeated :
    (computeMerkleRoot toyPairHash [1, 2, 3]).2 = false ∧
      (computeMerkleRoot toyPairHash [1, 2, 3]).1 = (computeMerkleRoot toyPairHash [1, 2, 3, 3]).1 ∧
      (computeMerkleRoot toyPairHash [1, 2, 3, 3]).2 = true := by
  have hunmutated : (computeMerkleRoot toyPairHash [1, 2, 3]).2 = false := by
    simp [computeMerkleRoot, merkleLoop, nextLevel, pairUp, levelMutated, toyPairHash]
  have hroot : (computeMerkleRoot toyPairHash [1, 2, 3]).1 = (computeMerkleRoot toyPairHash [1, 2, 3, 3]).1 := by
    simp [computeMerkleRoot, merkleLoop, nextLevel, pairUp, toyPairHash]
  refine ⟨hunmutated, hroot, (computeMerkleRoot_commits toyPairHash [1, 2, 3] [1, 2, 3, 3] ?_ ?_ hunmutated hroot).2
    [3] 0 (by simp) ⟨[1, 2], rfl⟩ (by simp)⟩
  · simp [PairsApart, hashedPairs, nextLevel, pairUp, toyPairHash]
  · simp [NoNode, hashedPairs, nextLevel, pairUp, toyPairHash]

end Blocx
