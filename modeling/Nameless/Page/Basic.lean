import Nameless.Fault

/-!
# Pages

A page takes down what is printed, mark by mark: texts, places where a line could be broken, line
ends, the brackets of named layout groups, and the parentheses of frames. Lines are never broken, so
a break hint reads as one space. Where a group is to be closed and none is open, the page takes that
down as well, although nothing is put on it. A page also has a limit on open groups; it enforces
nothing, but tells when the limit is reached.
-/

namespace Nameless

/-- What is taken down on a page. -/
inductive Mark where
  /-- Literal text. -/
  | text (s : String)
  /-- A place where a line could be broken. -/
  | gap
  /-- A forced end of line. -/
  | newline
  /-- A group of that name begins. -/
  | enter (name : String)
  /-- The innermost open group ends. -/
  | leave
  /-- The parenthesis of a frame begins. -/
  | opening
  /-- The parenthesis of a frame ends. -/
  | closing
  /-- A group was to be ended when none was open. -/
  | refused
deriving DecidableEq, Repr

/-- How a mark reads. -/
def Mark.reading : Mark → String
  | text s => s
  | gap => " "
  | newline => "\n"
  | opening => "("
  | closing => ")"
  | enter _ | leave | refused => ""

/-- A page: its limit on open groups, the names of the open groups, innermost first, and the marks
in the order in which they were put. -/
structure Page where
  limit : Int
  groups : List String := []
  marks : Array Mark := #[]
deriving DecidableEq

namespace Page

/-- The limit on open groups when no other is asked for. -/
def defaultLimit : Int := 200

/-- A page with nothing on it. -/
def blank (limit : Int) : Page := { limit }

/-- The number of open groups. -/
def depth (page : Page) : Nat := page.groups.length

/-- Whether no further group should be opened. -/
def isFull (page : Page) : Bool := decide (page.limit ≤ page.depth)

/-- Everything that was put on the page, as text. -/
def text (page : Page) : String := page.marks.foldl (fun s mark => s ++ mark.reading) ""

/-- A page on which one more mark has been taken down. -/
def note (page : Page) (mark : Mark) : Page where
  limit := page.limit
  groups := match mark with
    | .enter name => name :: page.groups
    | .leave => page.groups.tail
    | _ => page.groups
  marks := page.marks.push mark

/-- Puts literal text on the page. -/
def putText (s : String) (page : Page) : Page := page.note (.text s)

/-- Puts a break hint on the page. -/
def putGap (page : Page) : Page := page.note .gap

/-- Ends the line. -/
def putNewline (page : Page) : Page := page.note .newline

/-- Opens a group. -/
def enter (name : String) (page : Page) : Page := page.note (.enter name)

/-- Closes the innermost group. There has to be one. -/
def leave (page : Page) : Page := page.note .leave

/-- The text of a page grows by what its marks read. -/
@[simp] theorem text_note (page : Page) (mark : Mark) :
    (page.note mark).text = page.text ++ mark.reading := by
  simp [text, note]

/-- Opening a group makes the depth one more. -/
@[simp] theorem depth_enter (name : String) (page : Page) :
    (page.enter name).depth = page.depth + 1 := rfl

/-- A page is full when as many groups are open as its limit says. -/
theorem isFull_iff {page : Page} : page.isFull = true ↔ page.limit ≤ page.depth := by
  simp [isFull]

end Page

end Nameless
