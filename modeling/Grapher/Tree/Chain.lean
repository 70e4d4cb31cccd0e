import Grapher.Tree.Basic

/-!
# Comparison chains

A chain of comparisons reaches the tree in several shapes: flat with many arguments, nested on the
right, on the left, or on both sides. All shapes flatten from left to right into the list of terms
and the heads between neighbouring terms: a comparison among the arguments is spliced in place, and
the outer head links to its nearest term. Programs, native code and boundaries work from the links
of the flattened chain, so they agree on what a chain means.
-/

set_option autoImplicit false

namespace Grapher

/-- Terms with a head between each two neighbours. -/
structure Chain (Term Bond : Type) where
  terms : List Term
  heads : List Bond
  deriving Repr

/-- Two neighbouring terms of a chain and the head between them. -/
structure Link (Term Bond : Type) where
  head : Bond
  left : Term
  right : Term
  deriving Repr

namespace Chain

variable {Term Bond : Type}

/-- Each head with the terms at its two sides. -/
def linksOf : List Bond → List Term → List (Link Term Bond)
  | head :: heads, left :: right :: terms => ⟨head, left, right⟩ :: linksOf heads (right :: terms)
  | _, _ => []

/-- The links of a chain, from left to right. -/
def links (chain : Chain Term Bond) : List (Link Term Bond) :=
  linksOf chain.heads chain.terms

end Chain

namespace Node

variable {Bond : Type}

mutual

/-- The part of a chain that one argument contributes: the whole inner chain if it is a comparison
of at least two terms, else the argument as a single term. -/
def spliced (bond : Relation → Bond) : Node → Chain Node Bond
  | .of (.relation relation) args =>
    match args with
    | _ :: _ :: _ => flattened bond (bond relation) args
    | _ => ⟨[.of (.relation relation) args], []⟩
  | node => ⟨[node], []⟩

/-- The chain of an argument list under an outer head. -/
def flattened (bond : Relation → Bond) (outer : Bond) : List Node → Chain Node Bond
  | [] => ⟨[], []⟩
  | node :: nodes =>
    let first := spliced bond node
    match nodes with
    | [] => first
    | _ :: _ =>
      let rest := flattened bond outer nodes
      ⟨first.terms ++ rest.terms, first.heads ++ outer :: rest.heads⟩

end

/-- The chain of a comparison. -/
def comparisonChain (relation : Relation) (args : List Node) : Chain Node Relation :=
  flattened id relation args

/-- The chain of the arguments of any operation, comparisons among them spliced in. -/
def operationChain (head : Head) (args : List Node) : Chain Node Head :=
  flattened (fun relation => .operator (.relation relation)) head args

end Node

end Grapher
