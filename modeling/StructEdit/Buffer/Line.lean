import StructEdit.Scan.Line

/-!
# A line and its tokens

A line keeps the mode it was scanned in together with what the scan gave. The
proof field says that nothing else can stand there: a line never holds tokens of
another text or another mode. Whether that mode is the right one for the place of
the line is a matter of the buffer.
-/
namespace StructEdit

structure Line where
  text : Text
  /-- The mode it was scanned in. -/
  start : Mode
  tokens : List Token
  /-- The mode it ends in. -/
  stop : Mode
  scanned : scanLine text start = (tokens, stop)

namespace Line

def scan (text : Text) (mode : Mode) : Line :=
  let r := scanLine text mode
  ⟨text, mode, r.1, r.2, rfl⟩

def length (l : Line) : Nat := l.text.length

/-- Scans the texts one after the other, each in the mode that the one before it ends in. -/
def scanAll (mode : Mode) : List Text → List Line
  | [] => []
  | s :: ss =>
    let l := scan s mode
    l :: scanAll l.stop ss

@[simp] theorem text_scan (text : Text) (mode : Mode) : (scan text mode).text = text := rfl

@[simp] theorem start_scan (text : Text) (mode : Mode) : (scan text mode).start = mode := rfl

theorem tokens_ne_nil (l : Line) : l.tokens ≠ [] := by
  have h := scanLine_ne_nil l.text l.start
  rwa [l.scanned] at h

/-- A line is determined by its text and the mode it was scanned in. -/
theorem ext_scan {l m : Line} (ht : l.text = m.text) (hs : l.start = m.start) : l = m := by
  obtain ⟨text, start, tokens, stop, hl⟩ := l
  obtain ⟨text', start', tokens', stop', hm⟩ := m
  simp only at ht hs
  subst ht hs
  obtain ⟨rfl, rfl⟩ := Prod.mk.inj (hl.symm.trans hm)
  rfl

@[simp] theorem scan_start (l : Line) : scan l.text l.start = l :=
  ext_scan rfl rfl

theorem scanAll_ne_nil (mode : Mode) {ss : List Text} (h : ss ≠ []) : scanAll mode ss ≠ [] := by
  cases ss with
  | nil => exact absurd rfl h
  | cons _ _ => simp [scanAll]

@[simp] theorem map_text_scanAll (mode : Mode) (ss : List Text) :
    (scanAll mode ss).map text = ss := by
  induction ss generalizing mode with
  | nil => rfl
  | cons s ss ih => simp [scanAll, ih]

@[simp] theorem length_scanAll (mode : Mode) (ss : List Text) :
    (scanAll mode ss).length = ss.length := by
  rw [← List.length_map (f := text), map_text_scanAll]

end Line
end StructEdit
