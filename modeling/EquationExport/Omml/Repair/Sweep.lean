import EquationExport.Omml.Construct

/-!
# Sweeps over the containers of a fragment

Several repairs look for a span of neighbouring objects in a container and put one construct in its place.
A sweep goes through all containers, from the outside in, and repeats the repair in each until it finds no
span any more. Slots that a repair builds are new containers; they are looked at in the next sweep. Sweeps go
on until one changes nothing, thirty-two at most.

In a sweep an outer container is repaired before the containers inside it. So its spans are found in the
objects as they were before the sweep, and the objects that end up in it are those in which the inner
repairs have been done.
-/

namespace EquationExport.Omml.Repair

open Xml

/-- Neighbours in a container, from `start` up to `stop`, and what is built from them. -/
structure Span where
  start : Nat
  stop : Nat
  build : List Node → Node

/-- Puts the built node in the place of the span. -/
def Span.collapse (span : Span) (children : List Node) : List Node :=
  children.take span.start ++
    span.build ((children.drop span.start).take (span.stop - span.start)) :: children.drop span.stop

/-- Finds the first span to be repaired among the children of a container. -/
abbrev SpanRule := List Node → Option Span

/--
Repairs a container until no span is found, at most `fuel` times. Spans are found in `seen` and collapsed
in `out` alike; the two hold the same objects, which in `out` have been repaired inside. The truth value tells
whether a span was found.
-/
def exhaust (rule : SpanRule) : Nat → List Node → List Node → List Node × Bool
  | 0, _, out => (out, false)
  | fuel + 1, seen, out => match rule seen with
    | some span => ((exhaust rule fuel (span.collapse seen) (span.collapse out)).1, true)
    | none => (out, false)

/-- Repairs a container. A repair takes a run out of the container, so there are no more repairs than children. -/
def repairContainer (rule : SpanRule) (seen out : List Node) : List Node × Bool :=
  exhaust rule seen.length seen out

mutual

/-- Repairs the containers in a node, itself included. -/
def sweepNode (rule : SpanRule) : Node → Node × Bool
  | .element tag text children tail =>
    let (inside, changedInside) := sweepNodes rule children
    if (Node.element tag text children tail).isContainer then
      let (out, changed) := repairContainer rule children inside
      (.element tag text out tail, changed || changedInside)
    else (.element tag text inside tail, changedInside)
  | .comment content tail => (.comment content tail, false)
  | .instruction target content tail => (.instruction target content tail, false)

/-- Repairs the containers in several nodes. -/
def sweepNodes (rule : SpanRule) : List Node → List Node × Bool
  | [] => ([], false)
  | node :: rest =>
    let (node, changed) := sweepNode rule node
    let (rest, changedRest) := sweepNodes rule rest
    (node :: rest, changed || changedRest)

end

/-- Repairs all containers of a fragment; the fragment itself is one. -/
def sweep (rule : SpanRule) (f : Fragment) : Fragment × Bool :=
  let (inside, changedInside) := sweepNodes rule f.children
  let (out, changed) := repairContainer rule f.children inside
  ({ f with children := out }, changed || changedInside)

/-- Sweeps until nothing changes, at most `sweeps` times. The truth value tells whether anything did. -/
def sweepFor (rule : SpanRule) : Nat → Fragment → Fragment × Bool
  | 0, f => (f, false)
  | sweeps + 1, f =>
    let (g, changed) := sweep rule f
    if changed then ((sweepFor rule sweeps g).1, true) else (f, false)

/-- The most sweeps of one repair. -/
def maxSweeps : Nat := 32

/-- Sweeps until nothing changes. -/
def sweepUntilStable (rule : SpanRule) (f : Fragment) : Fragment × Bool := sweepFor rule maxSweeps f

end EquationExport.Omml.Repair
