import Blocx.Evo.CalculateQuorum
import Blocx.Lib.CircularWalk
import Blocx.Llmq.QuorumRules

/-!
# Quorum rotation

Rotated quorums change a quarter of their members in every cycle (`llmq/utils.cpp`). The new quarters of a cycle are
selected by `BuildNewQuorumQuarterMembers`, which goes round the masternodes sorted by score, those that were in no
quorum of the three cycles before first, and skips a masternode for a quorum that has it already or when `AddMN` throws.
What is stored of a cycle is a `CQuorumSnapshot`: a bit for each masternode and the list of the positions that were
skipped. From it `GetQuorumQuarterMembersBySnapshot` rebuilds the quarters in the next three cycles.

A cycle is given by what the functions read at its base block (`Cycle`). The list of skipped positions is stored
relative to the first one that is not zero; the numbers of masternodes are far below the range of `int`, so that the
conversions between `size_t` and `int` are those between naturals and integers. The loops of the source have no counter;
here they take fuel, and `unfinished` is what they give without enough of it.
-/

namespace Blocx

open CDeterministicMNList CircularWalk

variable {G : Type}

/-! ### Data -/

inductive SnapshotSkipMode where
  | noSkipping
  | skippingEntries
  | noSkippingEntries
  | allSkipped
  deriving DecidableEq

structure CQuorumSnapshot where
  /-- Whether the masternodes, sorted, were in a quorum of the cycles before. -/
  activeQuorumMembers : List Bool
  /-- What the skip list holds. -/
  mnSkipListMode : SnapshotSkipMode
  mnSkipList : List ℤ
  deriving DecidableEq

/-- The members of the quorums of a cycle, or a quarter of them. -/
abbrev Quarters (G : Type) : Type := List (List (CDeterministicMN G))

structure PreviousQuorumQuarters (G : Type) where
  /-- Quarters of the last cycle. -/
  quarterHMinusC : Quarters G
  /-- Quarters of the cycle before. -/
  quarterHMinus2C : Quarters G
  /-- Quarters of the cycle before that. -/
  quarterHMinus3C : Quarters G

/-- The base block of a cycle. -/
structure Cycle (G : Type) where
  /-- The masternode list of the work block, eight blocks before. -/
  allMns : CDeterministicMNList G
  /-- `SerializeHash` of the type of quorum and the hash of the work block. -/
  modifier : Uint256
  /-- `IsV19Active`, or the network is the test network. -/
  skipRemovedMNs : Bool

/-- Members of a quarter. -/
def QuorumParams.quarterSize (params : QuorumParams) : ℕ := params.size / 4

/-- How a loop without a counter ends. -/
inductive Filling (α : Type) where
  | full (a : α)
  /-- It returns from the function: there are not enough masternodes. -/
  | notEnough
  /-- It has not come to its end. -/
  | unfinished

variable (crypto : Crypto G)

/-! ### The masternodes used before -/

/-- `AddMN` in a block that catches what it throws. -/
def tryAddMN (list : CDeterministicMNList G) (mn : CDeterministicMN G) : CDeterministicMNList G :=
  finalState (addMN crypto mn true) list

/-- A member of a previous quarter is added to `MnsUsedAtH` and to the list of its quorum, unless it has been removed or
is banned. -/
def useMN (cycle : Cycle G) (used : CDeterministicMNList G × CDeterministicMNList G) (mn : CDeterministicMN G) :
    CDeterministicMNList G × CDeterministicMNList G :=
  if cycle.skipRemovedMNs && !cycle.allMns.hasMN mn.proTxHash then used
  else if cycle.allMns.isMNPoSeBanned mn.proTxHash then used
  else (tryAddMN crypto used.1 mn, tryAddMN crypto used.2 mn)

/-- The members that a quorum has from previous quarters, in the order in which they are looked at. -/
def PreviousQuorumQuarters.members (previousQuarters : PreviousQuorumQuarters G) (i : ℕ) : List (CDeterministicMN G) :=
  previousQuarters.quarterHMinusC.getD i [] ++ previousQuarters.quarterHMinus2C.getD i [] ++
    previousQuarters.quarterHMinus3C.getD i []

def mnsUsedAtH (params : QuorumParams) (cycle : Cycle G) (previousQuarters : PreviousQuorumQuarters G) :
    CDeterministicMNList G × List (CDeterministicMNList G) :=
  (List.range params.signingActiveQuorumCount).foldl (fun acc i =>
    let used := (previousQuarters.members i).foldl (useMN crypto cycle) (acc.1, {})
    (used.1, acc.2 ++ [used.2])) ({}, [])

def mnsNotUsedAtH (allMns mnsUsedAtH : CDeterministicMNList G) : CDeterministicMNList G :=
  (mns allMns.mnMap).foldl (fun notUsed dmn =>
    if !mnsUsedAtH.hasMN dmn.proTxHash then
      if !dmn.pdmnState.isBanned then tryAddMN crypto notUsed dmn else notUsed
    else notUsed) {}

/-- All the masternodes of a list by score, the unused ones before the used ones. -/
def sortedCombined (modifier : Uint256) (used notUsed : CDeterministicMNList G) : List (CDeterministicMN G) :=
  notUsed.calculateQuorum crypto notUsed.getAllMNsCount modifier ++
    used.calculateQuorum crypto used.getAllMNsCount modifier

/-! ### Selecting the new quarters -/

/-- What goes on from one quorum to the next. -/
structure Cursor where
  idx : ℕ := 0
  skipList : List ℤ := []
  /-- The position that the skip list is relative to. -/
  firstSkippedIndex : ℕ := 0

/-- Note that the position is skipped. -/
def Cursor.skip (cursor : Cursor) : Cursor :=
  if cursor.firstSkippedIndex = 0 then
    { cursor with firstSkippedIndex := cursor.idx, skipList := cursor.skipList ++ [(cursor.idx : ℤ)] }
  else { cursor with skipList := cursor.skipList ++ [(cursor.idx : ℤ) - cursor.firstSkippedIndex] }

/-- The state of the loop for one quorum. -/
structure Selection (G : Type) where
  mnsUsed : CDeterministicMNList G
  members : List (CDeterministicMN G) := []
  /-- Whether a masternode was selected since the loop was at its first position. -/
  updated : Bool := false
  cursor : Cursor

/-- The attempt to add the masternode at a position to the list of a quorum. -/
def attemptMN (sorted : List (CDeterministicMN G)) (mnsUsed : CDeterministicMNList G) (idx : ℕ) :
    Option (CDeterministicMNList G) :=
  match sorted[idx]? with
  | none => none
  | some mn =>
    if mnsUsed.hasMN mn.proTxHash then none
    else match (addMN crypto mn true).run mnsUsed with
      | .ok _ list => some list
      | .error _ _ => none

/-- One turn of the loop, up to the test for a full round. -/
def Selection.visit (sorted : List (CDeterministicMN G)) (s : Selection G) : Selection G :=
  let idx := s.cursor.idx
  let s := match attemptMN crypto sorted s.mnsUsed idx with
    | some list => { s with mnsUsed := list, members := s.members ++ sorted[idx]?.toList, updated := true }
    | none => { s with cursor := s.cursor.skip }
  { s with cursor := { s.cursor with idx := next sorted.length idx } }

/-- The condition of the loop for one quorum. -/
def Selection.Open (sorted : List (CDeterministicMN G)) (quarterSize usedMNsCount : ℕ) (s : Selection G) : Prop :=
  s.members.length < quarterSize ∧ usedMNsCount + s.members.length < sorted.length

instance (sorted : List (CDeterministicMN G)) (quarterSize usedMNsCount : ℕ) (s : Selection G) :
    Decidable (s.Open sorted quarterSize usedMNsCount) :=
  inferInstanceAs (Decidable (_ ∧ _))

/-- The loop for one quorum. -/
def fillQuarter (sorted : List (CDeterministicMN G)) (quarterSize usedMNsCount initialLoopIdx : ℕ) :
    ℕ → Selection G → Filling (Selection G)
  | 0, _ => .unfinished
  | fuel + 1, s =>
    if s.Open sorted quarterSize usedMNsCount then
      let s := s.visit crypto sorted
      if s.cursor.idx = initialLoopIdx then
        -- a full round
        if s.updated then fillQuarter sorted quarterSize usedMNsCount initialLoopIdx fuel { s with updated := false }
        else .notEnough
      else fillQuarter sorted quarterSize usedMNsCount initialLoopIdx fuel s
    else .full s

/-- Turns that the loop for a quorum makes at most. -/
def fillFuel (quarterSize size : ℕ) : ℕ := (quarterSize + 1) * size + 1

/-- The loop over the quorums. -/
def fillQuarters (sorted : List (CDeterministicMN G)) (quarterSize : ℕ) :
    List (CDeterministicMNList G) → Cursor → Filling (Quarters G × Cursor)
  | [], cursor => .full ([], cursor)
  | mnsUsed :: rest, cursor =>
    match fillQuarter crypto sorted quarterSize mnsUsed.getAllMNsCount cursor.idx (fillFuel quarterSize sorted.length)
        { mnsUsed, cursor } with
    | .full s =>
      match fillQuarters sorted quarterSize rest s.cursor with
      | .full (quarters, cursor) => .full (s.members :: quarters, cursor)
      | .notEnough => .notEnough
      | .unfinished => .unfinished
    | .notEnough => .notEnough
    | .unfinished => .unfinished

def buildQuorumSnapshot (cycle : Cycle G) (mnUsedAtH : CDeterministicMNList G) (skipList : List ℤ) : CQuorumSnapshot :=
  let sortedAllMns := cycle.allMns.calculateQuorum crypto cycle.allMns.getAllMNsCount cycle.modifier
  { activeQuorumMembers := sortedAllMns.map (fun dmn => mnUsedAtH.hasMN dmn.proTxHash) ++
      List.replicate (cycle.allMns.getAllMNsCount - sortedAllMns.length) false
    mnSkipListMode := if skipList.isEmpty then .noSkipping else .skippingEntries
    mnSkipList := skipList }

def buildNewQuorumQuarterMembers (params : QuorumParams) (cycle : Cycle G)
    (previousQuarters : PreviousQuorumQuarters G) : Option (Quarters G × Option CQuorumSnapshot) :=
  let noneSelected : Quarters G := List.replicate params.signingActiveQuorumCount []
  if cycle.allMns.getValidMNsCount < params.quarterSize then some (noneSelected, none)
  else
    let used := mnsUsedAtH crypto params cycle previousQuarters
    let sorted := sortedCombined crypto cycle.modifier used.1 (mnsNotUsedAtH crypto cycle.allMns used.1)
    match fillQuarters crypto sorted params.quarterSize used.2 {} with
    | .full (quarters, cursor) => some (quarters, some (buildQuorumSnapshot crypto cycle used.1 cursor.skipList))
    | .notEnough => some (noneSelected, none)
    | .unfinished => none

/-! ### Rebuilding the quarters -/

/-- `GetMNUsageBySnapshot`: the used and the unused masternodes. -/
def getMNUsageBySnapshot (cycle : Cycle G) (snapshot : CQuorumSnapshot) :
    CDeterministicMNList G × CDeterministicMNList G :=
  let sortedAllMns := cycle.allMns.calculateQuorum crypto cycle.allMns.getAllMNsCount cycle.modifier
  sortedAllMns.zipIdx.foldl (fun (usedMNs, nonUsedMNs) (dmn, i) =>
    if snapshot.activeQuorumMembers.getD i false then (tryAddMN crypto usedMNs dmn, nonUsedMNs)
    else if !dmn.pdmnState.isBanned then (usedMNs, tryAddMN crypto nonUsedMNs dmn)
    else (usedMNs, nonUsedMNs)) ({}, {})

def processSkipList : (firstEntryIndex : ℤ) → List ℤ → List ℤ
  | _, [] => []
  | firstEntryIndex, s :: rest =>
    if firstEntryIndex = 0 then s :: processSkipList s rest
    else (firstEntryIndex + s) :: processSkipList firstEntryIndex rest

/-- The loop that refills the quarter of one quorum, with the entries of the skip list that are left. -/
def refillQuarter (sorted : List (CDeterministicMN G)) (quarterSize : ℕ) :
    ℕ → List (CDeterministicMN G) → ℕ → List ℤ → List (CDeterministicMN G) × ℕ × List ℤ
  | 0, members, idx, itsk => (members, idx, itsk)
  | fuel + 1, members, idx, itsk =>
    if members.length < quarterSize then
      if itsk.head? = some (idx : ℤ) then refillQuarter sorted quarterSize fuel members
        (next sorted.length idx) itsk.tail
      else refillQuarter sorted quarterSize fuel (members ++ sorted[idx]?.toList) (next sorted.length idx) itsk
    else (members, idx, itsk)

/-- The loop over the quorums. -/
def refillQuarters (sorted : List (CDeterministicMN G)) (quarterSize : ℕ) : ℕ → ℕ → List ℤ → Quarters G
  | 0, _, _ => []
  | numQuorums + 1, idx, itsk =>
    let (members, idx, itsk) := refillQuarter sorted quarterSize (quarterSize + itsk.length) [] idx itsk
    members :: refillQuarters sorted quarterSize numQuorums idx itsk

/-- `GetQuorumQuarterMembersBySnapshot`. Without skipped entries the loop is the one with an empty skip list. -/
def getQuorumQuarterMembersBySnapshot (params : QuorumParams) (cycle : Cycle G) (snapshot : CQuorumSnapshot) :
    Quarters G :=
  let (usedMNs, nonUsedMNs) := getMNUsageBySnapshot crypto cycle snapshot
  let sorted := sortedCombined crypto cycle.modifier usedMNs nonUsedMNs
  let nothing : Quarters G := List.replicate params.signingActiveQuorumCount []
  if sorted.isEmpty then nothing
  else match snapshot.mnSkipListMode with
    | .noSkipping => refillQuarters sorted params.quarterSize params.signingActiveQuorumCount 0 []
    | .skippingEntries =>
      refillQuarters sorted params.quarterSize params.signingActiveQuorumCount 0 (processSkipList 0 snapshot.mnSkipList)
    | .noSkippingEntries => nothing
    | .allSkipped => nothing

end Blocx
