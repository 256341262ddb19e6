import OmniEvents.EventQueue
import OmniEvents.Lib.IStream
import OmniEvents.Lib.OrdMap
import Mathlib.Data.List.Lex
import Mathlib.Data.String.Basic

set_option autoImplicit false

/-! # The persistency tree and its parser

`PersistNode` (`PersistNode.h`, `PersistNode.cc`) is the tree that the server's log describes: every
node has attributes and named children, and the log adds nodes at a path, adds attributes to the
node added last, and deletes the subtree at a path. This file holds the functions of the source. A
path is the list of its `/`-separated components, so that the recursions of `addnode` and `delnode`
on the rest of the name are recursions on that list (`addnode_branch`, `delnode_branch`); the
`PersistNode*` under construction in `readnode` is the path it was added at. -/

namespace OmniEvents

/-- A node of the database: its attributes, and its children by their names. -/
inductive PersistNode where
  | mk (attrs : List (Str × Str)) (children : List (Str × PersistNode))

namespace PersistNode

/-! ## Members and accessors -/

/-- `_attr`. -/
def attrs : PersistNode → List (Str × Str)
  | mk attrs _ => attrs

/-- `_child`. -/
def children : PersistNode → List (Str × PersistNode)
  | mk _ children => children

/-- A node that has just been made. -/
def empty : PersistNode := mk [] []

/-- `PersistNode::hasAttr`. -/
def hasAttr (n : PersistNode) (key : Str) : Bool := (n.attrs.lookup key).isSome

/-- `PersistNode::attrString`. -/
def attrString (n : PersistNode) (key : Str) (fallback : Str := []) : Str :=
  (n.attrs.lookup key).getD fallback

/-- The child with this name. -/
def child (n : PersistNode) (key : Str) : Option PersistNode := n.children.lookup key

/-- The digits at the start of a text, as a number. -/
def digitsVal (acc : ℕ) : Str → ℕ
  | [] => acc
  | c :: cs => if c.isDigit then digitsVal (10 * acc + (c.toNat - '0'.toNat)) cs else acc

/-- `atol`: white space, a sign, digits; a value out of range is clamped to that of a `long`. -/
def atol (s : Str) : ℤ :=
  let clamp (i : ℤ) : ℤ := max (-2 ^ 63) (min i (2 ^ 63 - 1))
  match s.dropWhile isSpace with
  | '-' :: cs => clamp (-(digitsVal 0 cs))
  | '+' :: cs => clamp (digitsVal 0 cs)
  | cs => clamp (digitsVal 0 cs)

/-- `PersistNode::attrLong`, which converts the string by `atol`. -/
def attrLong (n : PersistNode) (key : Str) (fallback : ℤ := 0) : ℤ :=
  match n.attrs.lookup key with
  | none => fallback
  | some value => atol value

/-! ## Construction

`addnode` and `delnode` take a path apart at its `/`. -/

/-- The components of a path: its text split at each `/`. -/
def components (name : Str) : List Str := name.splitOn '/'

/-- `addnode`: a missing branch is created on the way, an old leaf is overwritten. -/
def addPath : List Str → PersistNode → PersistNode
  | [], n => n
  | [s], n => mk n.attrs (OrdMap.insert s empty n.children)
  | s :: t :: rest, n =>
      mk n.attrs (OrdMap.insert s (addPath (t :: rest) ((n.child s).getD empty)) n.children)

/-- `PersistNode::addnode`: the nodes on the way are made if they are not there. -/
def addnode (n : PersistNode) (name : Str) : PersistNode := addPath (components name) n

/-- `delnode`: nothing happens where a component is missing. -/
def delPath : List Str → PersistNode → PersistNode
  | [], n => n
  | [s], n => mk n.attrs (OrdMap.erase s n.children)
  | s :: t :: rest, n =>
      match n.child s with
      | none => n
      | some c => mk n.attrs (OrdMap.insert s (delPath (t :: rest) c) n.children)

/-- `PersistNode::delnode`: the last node of the path goes, with everything below it. -/
def delnode (n : PersistNode) (name : Str) : PersistNode := delPath (components name) n

/-- The two halves of an attribute token: the key before the first `=` and the value after it. -/
def splitAttr (keyvalue : Str) : Str × Str :=
  (keyvalue.takeWhile (· ≠ '='), (keyvalue.dropWhile (· ≠ '=')).drop 1)

/-- `addattr`. -/
def addattr (n : PersistNode) (keyvalue : Str) : PersistNode :=
  mk (OrdMap.insert (splitAttr keyvalue).1 (splitAttr keyvalue).2 n.attrs) n.children

/-- Apply `f` to the node at a path, if there is one. -/
def modifyAt (f : PersistNode → PersistNode) : List Str → PersistNode → PersistNode
  | [], n => f n
  | s :: rest, n =>
      match n.child s with
      | none => n
      | some c => mk n.attrs (OrdMap.insert s (modifyAt f rest c) n.children)

/-! ## Output -/

mutual

/-- `output`: the record of the node and then those of its children. The root, whose name is empty,
    has no record. -/
def output : PersistNode → Str → Str
  | mk attrs children, name =>
      if name = [] then outputChildren children []
      else
        name ++ '\n' ::
            (attrs.flatMap (fun kv => ' ' :: (kv.1 ++ '=' :: (kv.2 ++ ['\n']))) ++ [' ', ';', ';', '\n'])
          ++ outputChildren children (name ++ ['/'])

/-- `PersistNode::output` of the children, in the order of their names. -/
def outputChildren : List (Str × PersistNode) → Str → Str
  | [], _ => []
  | (key, c) :: rest, name => output c (name ++ key) ++ outputChildren rest name

end

/-! ## Parsing

The parser goes by tokens and not by lines: what a token means depends on whether a node is being
read, on its first character, and on whether it is `;;`. -/

/-- `INT_MAX`. -/
def intMax : ℕ := 2147483647

/-- `readtoken`: the next word that does not start a comment. The target `tok` keeps its old value
    when the stream has no word left. `fuel` bounds the number of comments. -/
def readtoken : ℕ → IStream → Str → IStream × Str × Bool
  | 0, is, tok => (is, tok, false)
  | fuel + 1, is, tok =>
      if is.fail then (is, tok, false)
      else
        match is.extract tok with
        | (is, []) => (is, [], false)
        | (is, c :: cs) =>
            if c ≠ '#' then (is, c :: cs, true)
            else readtoken fuel (is.ignore intMax '\n') (c :: cs)

/-- The marker that ends a record. -/
def endMark : Str := [';', ';']

/-- `readnode`: any number of deletions, or one new node with its attributes. `node` is the path of
    the node being read and `tok` the token buffer, which the source reuses. -/
def readnode : ℕ → IStream → PersistNode → Option (List Str) → Str → IStream × PersistNode × Bool
  | 0, is, root, node, _ => (is, root, node.isSome)
  | fuel + 1, is, root, node, tok =>
      match readtoken (is.rest.length + 2) is tok with
      | (is, tok, ok) =>
          if !ok || tok == endMark then (is, root, node.isSome)
          else
            match node with
            | some path => readnode fuel is (root.modifyAt (·.addattr tok) path) node tok
            | none =>
                if tok.head? == some '-' then readnode fuel is (root.delnode tok.tail) none tok
                else readnode fuel is (root.addnode tok) (some (components tok)) tok

/-- `while(readnode(is)){}`. -/
def readnodes : ℕ → IStream → PersistNode → PersistNode
  | 0, _, root => root
  | fuel + 1, is, root =>
      match readnode (is.rest.length + 2) is root none [] with
      | (is, root, true) => readnodes fuel is root
      | (_, root, false) => root

/-- `PersistNode::PersistNode(istream&)` for a stream that delivers `text`. -/
def parse (text : Str) : PersistNode := readnodes (text.length + 2) (IStream.ofText text) empty

/-! ## The recursion of the source

`addnode` and `delnode` look for the first `/` of the name and recurse on what follows it. -/

theorem components_leaf {name : Str} (h : '/' ∉ name) : components name = [name] :=
  List.splitOn_eq_singleton h

theorem components_branch {s : Str} (rest : Str) (h : '/' ∉ s) :
    components (s ++ '/' :: rest) = s :: components rest :=
  List.splitOn_append_cons_self_of_not_mem h rest

theorem components_ne_nil (name : Str) : components name ≠ [] := List.splitOn_ne_nil _ _

theorem addnode_leaf (n : PersistNode) {name : Str} (h : '/' ∉ name) :
    n.addnode name = mk n.attrs (OrdMap.insert name empty n.children) := by
  rw [addnode, components_leaf h, addPath]

theorem addnode_branch (n : PersistNode) {s : Str} (rest : Str) (h : '/' ∉ s) :
    n.addnode (s ++ '/' :: rest)
      = mk n.attrs (OrdMap.insert s (((n.child s).getD empty).addnode rest) n.children) := by
  rw [addnode, components_branch rest h, addnode]
  obtain ⟨t, ts, hts⟩ := List.exists_cons_of_ne_nil (components_ne_nil rest)
  rw [hts, addPath]

theorem delnode_leaf (n : PersistNode) {name : Str} (h : '/' ∉ name) :
    n.delnode name = mk n.attrs (OrdMap.erase name n.children) := by
  rw [delnode, components_leaf h, delPath]

theorem delnode_branch (n : PersistNode) {s : Str} (rest : Str) (h : '/' ∉ s) :
    n.delnode (s ++ '/' :: rest) =
      match n.child s with
      | none => n
      | some c => mk n.attrs (OrdMap.insert s (c.delnode rest) n.children) := by
  rw [delnode, components_branch rest h]
  obtain ⟨t, ts, hts⟩ := List.exists_cons_of_ne_nil (components_ne_nil rest)
  simp only [delnode, hts, delPath]

end PersistNode

end OmniEvents
