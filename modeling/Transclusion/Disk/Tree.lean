/-
  Trees of files, directories and links.

  Key definitions include:
    * `Transclusion.Node`
    * `Transclusion.Tree`
    * `Transclusion.Tree.node?`
    * `Transclusion.Tree.put`
    * `Transclusion.Tree.erase`

  Key theorems include:
    * `Transclusion.Tree.node?_put_self`
    * `Transclusion.Tree.node?_put_of_ne`

  A node is found under the names that lead to it from the
  root, which is a directory and never goes away.
-/

------------------------------------------------------------
-- Nodes
------------------------------------------------------------

namespace Transclusion

/-
  What stands under a name.  A device keeps nothing, and it
  either takes all data or refuses any.
-/
inductive Node where
  | file (content : ByteArray)
  | directory
  | link (target : String)
  | device (takesData : Bool)

/- Whether a node is a directory. -/
def Node.isDirectory : Node → Bool
  | .directory => true
  | _ => false

/- Nodes by the names that lead to them from the root. -/
structure Tree where
  nodes : List (List String × Node) := []

namespace Tree

/- The node under names. -/
def node?
    (tree : Tree) : List String → Option Node
  | [] => some .directory
  | names => tree.nodes.lookup names

/- Whether names lead to a directory. -/
def isDirectory
    (tree : Tree)
    (names : List String) : Bool :=
  (tree.node? names).any Node.isDirectory

/- Put a node under names, in place of any other. -/
def put
    (tree : Tree)
    (names : List String)
    (node : Node) : Tree :=
  ⟨(names, node) ::
    tree.nodes.filter fun other => other.1 ≠ names⟩

/- Take away what is under names and below them. -/
def erase
    (tree : Tree)
    (names : List String) : Tree :=
  ⟨tree.nodes.filter fun other =>
    !names.isPrefixOf other.1⟩

/- Nodes put under names are found there. -/
theorem node?_put_self
    (tree : Tree)
    {names : List String}
    (node : Node)
    (hne : names ≠ []) :
    (tree.put names node).node? names = some node := by
  cases names with
  | nil => exact absurd rfl hne
  | cons name rest => simp [node?, put]

/- Other names are looked up as before. -/
theorem lookup_filter_of_ne
    {names wanted : List String}
    (hne : wanted ≠ names)
    (nodes : List (List String × Node)) :
    (nodes.filter fun other => other.1 ≠ names).lookup
        wanted =
      nodes.lookup wanted := by
  induction nodes with
  | nil => rfl
  | cons entry rest ih =>
      obtain ⟨other, node⟩ := entry
      by_cases h : other = names
      · subst h
        have hw : (wanted == other) = false := by simp [hne]
        simpa [List.lookup_cons, hw] using ih
      · simp only [ne_eq, h, not_false_eq_true, decide_true,
          List.filter_cons_of_pos, List.lookup_cons]
        rw [ih]

/- Nodes under other names stay where they are. -/
theorem node?_put_of_ne
    (tree : Tree)
    {names wanted : List String}
    (node : Node)
    (hne : wanted ≠ names) :
    (tree.put names node).node? wanted =
      tree.node? wanted := by
  cases wanted with
  | nil => rfl
  | cons name rest =>
      have hw : (name :: rest == names) = false := by
        simp [hne]
      simp only [node?, put, List.lookup_cons, hw]
      exact lookup_filter_of_ne hne tree.nodes

end Tree

end Transclusion
