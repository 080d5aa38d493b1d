/-
Request routing by method and path, as `http.ServeMux` does it. A pattern may name a method; its path is a list of
literal segments and wildcards, and a path that ends in a slash stands for everything below it. The patterns of one
method form a tree that is walked down segment by segment, a literal before a wildcard and a wildcard before the rest
of the path; patterns that name the method of the request come before those that name none.

A path is the list of the segments after its first slash, so that the last one is empty exactly if the path ends in a
slash. A request whose path is not `clean` is redirected to the one that is.
-/
import Mathlib.Data.List.Basic

namespace Quorum

namespace ServeMux

/-- A segment of a pattern: a text, or a wildcard such as `{id}`. -/
inductive Segment where
  | literal (s : String)
  | wildcard
  deriving DecidableEq, Repr

/-- A pattern. `subtree` says that its path ends in a slash. -/
structure Pattern where
  method : Option String
  segments : List Segment
  subtree : Bool
  deriving DecidableEq, Repr

/-- The path a path stands for: without empty segments, `.` and `..`, and with a slash at the end if it had one. -/
def clean (path : List String) : List String :=
  let segments := path.foldl
    (fun segs seg => if seg = "" ∨ seg = "." then segs else if seg = ".." then segs.dropLast else segs ++ [seg]) []
  if segments = [] ∨ path.getLast? = some "" then segments ++ [""] else segments

section
variable {α : Type}

/-- A pattern seen from a node of the tree: the segments below the node, and what the pattern is registered for. -/
structure Branch (α : Type) where
  segments : List Segment
  subtree : Bool
  target : α

/-- The branch below a segment. -/
def Branch.below (seg : Segment) (b : Branch α) : Option (Branch α) :=
  match b.segments with
  | [] => none
  | s :: rest => if s = seg then some { b with segments := rest } else none

/-- The child of a node under a segment. -/
def child (seg : Segment) (node : List (Branch α)) : List (Branch α) := node.filterMap (Branch.below seg)

/-- What is registered at a node, for the path that ends there or for everything below it. -/
def leaf (subtree : Bool) (node : List (Branch α)) : Option α :=
  (node.find? fun b => b.segments.isEmpty && b.subtree == subtree).map Branch.target

/-- The walk down the tree, with the segments that stand for wildcards. -/
def matchPath : List String → List (Branch α) → Option (α × List String)
  | [], node => (leaf false node).map fun a => (a, [])
  | seg :: rest, node =>
    match matchPath rest (child (.literal seg) node) with
    | some p => some p
    | none =>
      -- a wildcard does not stand for the end of a path
      match if seg = "" then none else matchPath rest (child .wildcard node) with
      | some p => some (p.1, seg :: p.2)
      | none => (leaf true node).map fun a => (a, [])

/-- The root of the tree of a method. -/
def root (routes : List (Pattern × α)) (method : Option String) : List (Branch α) :=
  routes.filterMap fun r => if r.1.method = method then some ⟨r.1.segments, r.1.subtree, r.2⟩ else none

/-- The route of a request. -/
def find (routes : List (Pattern × α)) (method : String) (path : List String) : Option (α × List String) :=
  match matchPath path (root routes (some method)) with
  | some p => some p
  | none =>
    match if method = "HEAD" then matchPath path (root routes (some "GET")) else none with
    | some p => some p
    | none => matchPath path (root routes none)

/-! ## What a route says about its request -/

/-- The segments of a pattern fit a path, with these segments for its wildcards. -/
inductive Fits : List Segment → Bool → List String → List String → Prop where
  | here : Fits [] false [] []
  | under (seg : String) (rest : List String) : Fits [] true (seg :: rest) []
  | literal (s : String) {ss : List Segment} {subtree : Bool} {path ids : List String} (h : Fits ss subtree path ids) :
      Fits (.literal s :: ss) subtree (s :: path) ids
  | wildcard {s : String} (hs : s ≠ "") {ss : List Segment} {subtree : Bool} {path ids : List String}
      (h : Fits ss subtree path ids) : Fits (.wildcard :: ss) subtree (s :: path) (s :: ids)

/-- A request of this method may take a pattern that names that one. -/
def Takes (method : String) (named : Option String) : Prop :=
  named = none ∨ named = some method ∨ method = "HEAD" ∧ named = some "GET"

theorem fits_nil {path ids : List String} : Fits [] false path ids ↔ path = [] ∧ ids = [] := by
  constructor
  · rintro ⟨⟩
    exact ⟨rfl, rfl⟩
  · rintro ⟨rfl, rfl⟩
    exact .here

theorem fits_literal {s : String} {ss : List Segment} {subtree : Bool} {path ids : List String} :
    Fits (.literal s :: ss) subtree path ids ↔ ∃ rest, path = s :: rest ∧ Fits ss subtree rest ids := by
  constructor
  · intro h
    cases h with
    | literal _ h => exact ⟨_, rfl, h⟩
  · rintro ⟨rest, rfl, h⟩
    exact .literal s h

theorem fits_wildcard {ss : List Segment} {subtree : Bool} {path ids : List String} :
    Fits (.wildcard :: ss) subtree path ids ↔
      ∃ s rest ids', s ≠ "" ∧ path = s :: rest ∧ ids = s :: ids' ∧ Fits ss subtree rest ids' := by
  constructor
  · intro h
    cases h with
    | wildcard hs h => exact ⟨_, _, _, hs, rfl, rfl, h⟩
  · rintro ⟨s, rest, ids', hs, rfl, rfl, h⟩
    exact .wildcard hs h

theorem mem_child {seg : Segment} {node : List (Branch α)} {b : Branch α} :
    b ∈ child seg node ↔ { b with segments := seg :: b.segments } ∈ node := by
  unfold child
  rw [List.mem_filterMap]
  constructor
  · rintro ⟨c, hc, hbelow⟩
    obtain ⟨segments, subtree, target⟩ := c
    cases segments with
    | nil => cases hbelow
    | cons s rest =>
      simp only [Branch.below] at hbelow
      split at hbelow
      · rename_i hs
        cases hbelow
        rwa [← hs]
      · cases hbelow
  · intro h
    exact ⟨_, h, if_pos rfl⟩

theorem leaf_eq_some {subtree : Bool} {node : List (Branch α)} {a : α} (h : leaf subtree node = some a) :
    ⟨[], subtree, a⟩ ∈ node := by
  unfold leaf at h
  obtain ⟨b, hfind, rfl⟩ := Option.map_eq_some_iff.1 h
  have hmem := List.mem_of_find?_eq_some hfind
  have htest := List.find?_some hfind
  obtain ⟨segments, s, target⟩ := b
  simp only [Bool.and_eq_true, List.isEmpty_iff, beq_iff_eq] at htest
  obtain ⟨rfl, rfl⟩ := htest
  exact hmem

/-- What the walk finds is registered under a path that fits. -/
theorem matchPath_fits {path : List String} {node : List (Branch α)} {a : α} {ids : List String}
    (h : matchPath path node = some (a, ids)) : ∃ b ∈ node, b.target = a ∧ Fits b.segments b.subtree path ids := by
  induction path generalizing node ids with
  | nil =>
    obtain ⟨a', hleaf, heq⟩ := Option.map_eq_some_iff.1 h
    cases heq
    exact ⟨_, leaf_eq_some hleaf, rfl, .here⟩
  | cons seg rest ih =>
    rw [matchPath] at h
    split at h
    · rename_i hlit
      cases h
      obtain ⟨b, hb, htarget, hfits⟩ := ih hlit
      exact ⟨_, mem_child.1 hb, htarget, .literal seg hfits⟩
    · split at h
      · rename_i p hwild
        cases h
        split at hwild
        · cases hwild
        · rename_i hseg
          obtain ⟨b, hb, htarget, hfits⟩ := ih hwild
          exact ⟨_, mem_child.1 hb, htarget, .wildcard hseg hfits⟩
      · obtain ⟨a', hleaf, heq⟩ := Option.map_eq_some_iff.1 h
        cases heq
        exact ⟨_, leaf_eq_some hleaf, rfl, .under seg rest⟩

theorem mem_root {routes : List (Pattern × α)} {method : Option String} {b : Branch α} :
    b ∈ root routes method ↔ (⟨method, b.segments, b.subtree⟩, b.target) ∈ routes := by
  unfold root
  rw [List.mem_filterMap]
  constructor
  · rintro ⟨⟨pattern, target⟩, hr, hsome⟩
    dsimp only at hsome
    split at hsome
    · rename_i hmethod
      cases hsome
      subst hmethod
      exact hr
    · cases hsome
  · intro h
    exact ⟨_, h, if_pos rfl⟩

/-- The route of a request is in the table, under a pattern that the request fits. -/
theorem find_fits {routes : List (Pattern × α)} {method : String} {path : List String} {a : α} {ids : List String}
    (h : find routes method path = some (a, ids)) :
    ∃ p, (p, a) ∈ routes ∧ Takes method p.method ∧ Fits p.segments p.subtree path ids := by
  have hroot : ∀ {named : Option String}, matchPath path (root routes named) = some (a, ids) → Takes method named →
      ∃ p, (p, a) ∈ routes ∧ Takes method p.method ∧ Fits p.segments p.subtree path ids := by
    rintro named hmatch htakes
    obtain ⟨b, hb, rfl, hfits⟩ := matchPath_fits hmatch
    exact ⟨_, mem_root.1 hb, htakes, hfits⟩
  unfold find at h
  split at h
  · rename_i hexact
    cases h
    exact hroot hexact (.inr (.inl rfl))
  · split at h
    · rename_i hget
      cases h
      split at hget
      · rename_i hhead
        exact hroot hget (.inr (.inr ⟨hhead, rfl⟩))
      · cases hget
    · exact hroot h (.inl rfl)

end

end ServeMux

end Quorum
