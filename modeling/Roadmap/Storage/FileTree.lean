import Roadmap.Storage.Memory
import Roadmap.Storage.Path

namespace Roadmap

/-- A file holds a text, or `none` if its bytes are not one. -/
inductive FileTree where
  | file (text : Option String)
  | directory (entries : List (String × FileTree))

namespace FileTree

abbrev Place := List String

def empty : FileTree := .directory []

def put (name : String) (entry : FileTree) :
    List (String × FileTree) → List (String × FileTree)
  | [] => [(name, entry)]
  | (other, old) :: rest =>
    if other = name then (name, entry) :: rest else (other, old) :: put name entry rest

def find? : FileTree → Place → Option FileTree
  | tree, [] => some tree
  | .directory entries, name :: rest => (entries.lookup name).bind (find? · rest)
  | .file _, _ :: _ => none

def isDirectory (tree : FileTree) (place : Place) : Bool :=
  match tree.find? place with
  | some (.directory _) => true
  | _ => false

def putAt : FileTree → Place → FileTree → FileTree
  | _, [], entry => entry
  | .directory entries, name :: rest, entry =>
    .directory (put name (putAt ((entries.lookup name).getD empty) rest entry) entries)
  | .file text, _ :: _, _ => .file text

def removeAt : FileTree → Place → FileTree
  | .directory entries, [name] => .directory (entries.eraseP (·.1 = name))
  | .directory entries, name :: rest =>
    match entries.lookup name with
    | some below => .directory (put name (removeAt below rest) entries)
    | none => .directory entries
  | tree, _ => tree

/-- The place that steps lead to. Each step starts in a directory, and above the root there is
nothing but the root. -/
def follow? (tree : FileTree) (place : Place) : List Path.Step → Option Place
  | [] => some place
  | step :: rest =>
    if tree.isDirectory place then
      match step with
      | .stay => follow? tree place rest
      | .up => follow? tree place.dropLast rest
      | .into name =>
        let inner := place ++ [name]
        if (tree.find? inner).isSome then follow? tree inner rest else none
    else none

def locate? (tree : FileTree) (path : Path) : Option Place :=
  if path.isUsable then tree.follow? [] path.steps else none

def makeWay (tree : FileTree) (place : Place) : List Path.Step → Option Place × FileTree
  | [] => (some place, tree)
  | .stay :: rest => makeWay tree place rest
  | .up :: rest => makeWay tree place.dropLast rest
  | .into name :: rest =>
    let inner := place ++ [name]
    match tree.find? inner with
    | some (.directory _) => makeWay tree inner rest
    | some (.file _) => (none, tree)
    | none => if Path.isName name then makeWay (tree.putAt inner empty) inner rest else (none, tree)

def makeDirectories (tree : FileTree) (path : Path) : Option Place × FileTree :=
  if path.isUsable then tree.makeWay [] path.steps else (none, tree)

def readText (tree : FileTree) (path : Path) : Except StorageError (Option String) :=
  match (tree.locate? path).bind tree.find? with
  | none => .ok none
  | some (.file (some text)) => .ok (some text)
  | some _ => .error .medium

def save (tree : FileTree) (path : Path) (text : Option String) :
    Except StorageError Unit × FileTree :=
  match tree.makeDirectories path.parent, path.fileName? with
  | (some place, made), some name =>
    let inner := place ++ [name]
    if path.isUsable && Path.isName name && !made.isDirectory inner then
      (.ok (), made.putAt inner (.file text))
    else (.error .medium, made)
  | (_, made), _ => (.error .medium, made)

def clear (tree : FileTree) (path : Path) : Except StorageError Unit × FileTree :=
  match tree.locate? path with
  | none => (.ok (), tree)
  | some place =>
    if tree.isDirectory place then (.error .medium, tree) else (.ok (), tree.removeAt place)

def storage (path : Path) (legacyPath : Option Path) : Storage FileTree where
  load tree :=
    match tree.readText path with
    | .error e => .error e
    | .ok none => .ok none
    | .ok (some text) => (StoredCollection.decode text).map some
  save stored tree := tree.save path stored.json.pretty
  loadLegacy tree :=
    match legacyPath with
    | none => .ok none
    | some path => tree.readText path
  clearLegacy tree :=
    match legacyPath with
    | none => (.ok (), tree)
    | some path => tree.clear path

end FileTree

end Roadmap
