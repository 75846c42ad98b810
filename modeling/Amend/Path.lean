/-
Amend.Path — paths as texts.

A path is taken apart at its slashes without looking at any disk. The
normal form drops empty names, dots, and each name that a double dot takes
back; it keeps one slash at the start, or exactly two.
-/
import Amend.Text.Search

namespace Amend.Path

/-! ## §1 Names and slashes -/

/-- The separator of names. -/
def slash : Symbol := .char '/'

/-- The name of a directory itself. -/
def here : Text := "."

/-- The name of the directory above. -/
def above : Text := ".."

/-- The names between slashes, empty ones included. -/
def names : Text → List Text
  | [] => [[]]
  | c :: t =>
    if c = slash then [] :: names t
    else
      match names t with
      | n :: ns => (c :: n) :: ns
      | [] => [[c]]

/-- Whether the path starts at the root. -/
def isAbsolute (path : Text) : Bool := path.head? = some slash

/-- The path without the slashes at its end. -/
def trimSlashes (path : Text) : Text := (path.reverse.dropWhile (· = slash)).reverse

/-- A second path taken from a first; an absolute one stands for itself. -/
def join (base path : Text) : Text :=
  if isAbsolute path then path
  else if base = [] ∨ base.getLast? = some slash then base ++ path
  else base ++ [slash] ++ path

/-- The path up to its last slash, and the name after it. The slashes before
the name are dropped unless the first part is nothing else. -/
def split (path : Text) : Text × Text :=
  let tail := (path.reverse.takeWhile (· ≠ slash)).reverse
  let head := path.take (path.length - tail.length)
  (if head.all (· = slash) then head else trimSlashes head, tail)

/-- The directory a path's last name is in. -/
def directory (path : Text) : Text := (split path).1

/-! ## §2 The normal form -/

/-- How many slashes a normal path starts with. -/
def rootSlashes (path : Text) : Nat :=
  match path.takeWhile (· = slash) with
  | [] => 0
  | [_, _] => 2
  | _ => 1

/-- Puts one more name on the names kept so far, the last of which is first
in the list. -/
def pushName (rooted : Bool) (kept : List Text) (name : Text) : List Text :=
  if name = [] ∨ name = here then kept
  else if name ≠ above then name :: kept
  else
    match kept with
    | [] => if rooted then [] else [name]
    | k :: ks => if k = above then name :: kept else ks

/-- The shortest path of the same meaning, going by the names alone. -/
def normalize (path : Text) : Text :=
  let slashes := rootSlashes path
  let kept := (names path).foldl (pushName (0 < slashes)) []
  let body := Text.join [slash] kept.reverse
  let full := List.replicate slashes slash ++ body
  if full = [] then here else full

/-! ## §3 Where a request's path leads -/

/-- The spaces of other widths than the plain one, which paths are often
pasted with. -/
def isOddSpace : Symbol → Bool
  | .char c =>
    let n := c.toNat
    n == 0xA0 || (0x2000 ≤ n && n ≤ 0x200A) || n == 0x202F || n == 0x205F || n == 0x3000
  | .stray _ => false

/-- The home directory as it stands for a tilde. -/
def homeDirectory (home : Text) : Text :=
  let h := trimSlashes home
  if h = [] then [slash] else h

/-- The path a request means: odd spaces are plain ones, a tilde at the start
is the home directory, and what is then not absolute is taken from `base`. -/
def resolve (home base path : Text) : Text :=
  let path := path.map fun s => if isOddSpace s then .char ' ' else s
  let path :=
    match path with
    | [.char '~'] => homeDirectory home
    | .char '~' :: .char '/' :: r => homeDirectory home ++ slash :: r
    | p => p
  if isAbsolute path then path else normalize (join base path)

end Amend.Path
