import Mathlib.Algebra.BigOperators.Group.List.Basic

/-!
# Groups of runtime stages

`merge_stages` of `profile_layerweave_group_boundaries.py`: stages are merged into groups of at least `minimum_bytes`. A stage
has the parameters that it is the first to use; those that no stage of a forward pass was seen to use have a stage of their own.
-/

namespace ServerlessLLM.Layerweave

structure StageParameter where
  name : String
  bytes : Nat
deriving DecidableEq

/-- A stage of `runtime_stages`. -/
structure RuntimeStage where
  stageName : String
  parameters : List StageParameter
  bytes : Nat
  observed : Bool
deriving DecidableEq

/-- A group of `merge_stages`. -/
structure StageGroup where
  groupId : Nat
  stages : List String
  parameters : List StageParameter
  logicalBytes : Nat
  observed : Bool
deriving DecidableEq

def stageGroup (groupId : Nat) (pending : List RuntimeStage) (pendingBytes : Nat) : StageGroup :=
  ⟨groupId, pending.map RuntimeStage.stageName, pending.flatMap RuntimeStage.parameters, pendingBytes,
    pending.all RuntimeStage.observed⟩

/-- The variables of `merge_stages`. -/
structure Merging where
  groups : List StageGroup
  pending : List RuntimeStage
  pendingBytes : Nat
deriving DecidableEq

def Merging.close (w : Merging) : Merging := ⟨w.groups ++ [stageGroup w.groups.length w.pending w.pendingBytes], [], 0⟩

/-- The pending stages become a group before a stage with another flag. -/
def Merging.turn (w : Merging) (stage : RuntimeStage) : Merging :=
  match w.pending.getLast? with
  | some last => if last.observed ≠ stage.observed then w.close else w
  | none => w

/-- The body of the loop of `merge_stages`. -/
def Merging.add (minimumBytes : Nat) (w : Merging) (stage : RuntimeStage) : Merging :=
  let w := w.turn stage
  let w : Merging := ⟨w.groups, w.pending ++ [stage], w.pendingBytes + stage.bytes⟩
  if minimumBytes ≤ w.pendingBytes then w.close else w

/-- The end of `merge_stages`: stages that are left over join the last group, when it has their flag. -/
def Merging.finish (w : Merging) : List StageGroup :=
  if w.pending = [] then w.groups
  else
    match w.groups.getLast? with
    | none => w.groups ++ [stageGroup 0 w.pending w.pendingBytes]
    | some group =>
      if group.observed = w.pending.all RuntimeStage.observed then
        w.groups.dropLast ++ [⟨group.groupId, group.stages ++ w.pending.map RuntimeStage.stageName,
          group.parameters ++ w.pending.flatMap RuntimeStage.parameters, group.logicalBytes + w.pendingBytes,
          group.observed && w.pending.all RuntimeStage.observed⟩]
      else w.groups ++ [stageGroup 0 w.pending w.pendingBytes]

def mergeStages (stages : List RuntimeStage) (minimumBytes : Nat) : List StageGroup :=
  (stages.foldl (Merging.add minimumBytes) ⟨[], [], 0⟩).finish

end ServerlessLLM.Layerweave
