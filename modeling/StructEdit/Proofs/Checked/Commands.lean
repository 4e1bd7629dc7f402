import StructEdit.Command
import StructEdit.Cursor.Partner
import StructEdit.Proofs.Checked.Indent
import StructEdit.Proofs.Checked.Lists
import StructEdit.Proofs.Document.Standing

/-!
# Checked commands

The commands that type delimiters, grow the selection, raise and convolute, and then any command.
A difference with the caret has a value because a text that was found before the caret has room
there. In a document that commands made out of a fresh one, every command has a value, and so has
everything that can be read off the document.
-/
namespace StructEdit
open Text

namespace Checked
open Address

/-! ## Delimiters -/

def openPair (d : Document) (pair : Text) : Option Document :=
  let lower := d.selection.lower
  perform (fun d => do
    let d ← insert d pair
    setCaret d (lower + (pair.length - 1))) d

def closeList (d : Document) (closer : Text) : Option Document := do
  let b := d.buffer
  let c ← cursorAt b d.caret
  let c ← forwardSpace b false c
  let t ← token b c
  if t.raw = closer then
    let stop ← start b c
    edit d d.caret stop [] (d.caret + 1)
  else
    match ← forwardList b c with
    | some e =>
      let place ← stop b e
      setCaret d place
    | none =>
      let e ← forwardSexps b true c
      let place ← stop b e
      edit d place place closer (place + 1)

def deletePair (d : Document) (place count : Nat) : Option Document :=
  perform (fun d => do
    let d ← deleteAt d place count (some (.point d.caret)) (some (.point place))
    setCaret d place) d

/-- The character before the last one is a backslash. -/
def escaped (b : Buffer) (offset : Nat) : Option Bool :=
  if 2 ≤ offset then do
    let i ← sub offset 2
    let j ← sub offset 1
    let s ← sliceWithin b i j
    return s = ['\\']
  else some false

def backspacePair (d : Document) : Option Document := do
  let b := d.buffer
  let caret := d.caret
  if d.selection.isEmpty = false then backspace d
  else
    let three ← around b caret 3 0
    if three = ['\\', '"', '"'] then
      let place ← sub caret 1
      setCaret d place
    else
      if ← escaped b caret then
        let place ← sub caret 2
        deletePair d place 2
      else
        let pair ← around b caret 1 1
        if isEmptyPair pair then
          let place ← sub caret 1
          deletePair d place 2
        else
          let one ← around b caret 1 0
          if isDelimiter one then
            let place ← sub caret 1
            setCaret d place
          else backspace d

def deletePairForward (d : Document) : Option Document := do
  let b := d.buffer
  let caret := d.caret
  if d.selection.isEmpty = false then delete d
  else
    let ahead ← sliceWithin b caret (caret + 2)
    if isEmptyPair ahead then
      perform (fun d => deleteAt d caret 2 (some (.point caret)) (some (.point caret))) d
    else
      let pair ← around b caret 1 1
      if isEmptyPair pair then
        let place ← sub caret 1
        deletePair d place 2
      else
        let one ← sliceWithin b caret (caret + 1)
        if isDelimiter one then setCaret d (caret + 1) else delete d

def quote (d : Document) : Option Document := do
  let b := d.buffer
  let caret := d.caret
  if d.selection.isEmpty = false then insert d ['"']
  else
    let c ← cursorAt b caret
    let t ← token b c
    let front ← start b c
    let inside ← withinString b c
    if inside = false ∨ front = caret ∧ (t.kind = .string ∨ t.kind = .stringStart) then
      edit d caret caret ['"', '"'] (caret + 1)
    else
      let back ← stop b c
      if (t.kind = .string ∨ t.kind = .stringEnd) ∧ back = caret + 1 then setCaret d (caret + 1)
      else edit d caret caret ['\\', '"'] (caret + 2)

/-- A text that was read before an offset has room there. -/
theorem le_of_around_ne_nil {b : Buffer} {offset back ahead : Nat}
    (h : b.around offset back ahead ≠ []) : back ≤ offset := by
  by_cases hle : back ≤ offset
  · exact hle
  · exact absurd (if_neg hle) h

theorem le_of_around {b : Buffer} {offset back ahead : Nat} {test : Text → Bool}
    (hnil : test [] = false) (h : test (b.around offset back ahead) = true) : back ≤ offset := by
  have hne : b.around offset back ahead ≠ [] := by
    intro heq
    rw [heq, hnil] at h
    cases h
  exact le_of_around_ne_nil hne

theorem openPair_eq (d : Document) (pair : Text) : openPair d pair = some (d.openPair pair) :=
  perform_eq d fun e => by simp

theorem deletePair_eq (d : Document) (place count : Nat) :
    deletePair d place count = some (d.deletePair place count) :=
  perform_eq d fun e => by simp

theorem closeList_eq (d : Document) (closer : Text) :
    closeList d closer = some (d.closeList closer) := by
  have hc := (in_cursor d).forwardSpace false
  have hraw :
      (d.cursor.forwardSpace false).here.token.raw = (d.cursor.forwardSpace false).raw := rfl
  simp only [closeList, cursor_eq, forwardSpace_eq (in_cursor d), token_eq hc, start_eq hc,
    forwardList_eq hc, forwardSexps_eq hc, stop_eq (hc.forwardSexps true), edit_eq, hraw,
    Option.bind_eq_bind, Option.bind_some, Document.closeList]
  by_cases hcloser : (d.cursor.forwardSpace false).raw = closer
  · rw [if_pos hcloser, if_pos hcloser]
  · rw [if_neg hcloser, if_neg hcloser]
    cases he : (d.cursor.forwardSpace false).forwardList? with
    | none => rfl
    | some e => simp [stop_eq (hc.forwardList? he)]

theorem escaped_eq (b : Buffer) (offset : Nat) : escaped b offset =
    some (decide (2 ≤ offset ∧ b.sliceWithin (offset - 2) (offset - 1) = ['\\'])) := by
  unfold escaped
  by_cases hle : 2 ≤ offset
  · simp [hle, sub_of_le hle, sub_of_le (Nat.le_of_succ_le hle)]
  · simp [hle]

theorem backspacePair_eq (d : Document) : backspacePair d = some d.backspacePair := by
  simp only [backspacePair, around_eq, escaped_eq, backspace_eq, deletePair_eq, setCaret_eq,
    Option.bind_eq_bind, Option.bind_some, Document.backspacePair]
  split
  · rfl
  split
  · rename_i hthree
    have hroom : 3 ≤ d.caret := le_of_around_ne_nil (by rw [hthree]; simp)
    simp [sub_of_le (show 1 ≤ d.caret by omega)]
  split
  · rename_i hescape
    simp only [decide_eq_true_eq] at hescape
    simp [hescape, sub_of_le hescape.1]
  rename_i hescape
  rw [decide_eq_true_eq] at hescape
  rw [if_neg hescape]
  split
  · rename_i hpair
    simp [sub_of_le (le_of_around rfl hpair)]
  split
  · rename_i hone
    simp [sub_of_le (le_of_around rfl hone)]
  · rfl

theorem deletePairForward_eq (d : Document) : deletePairForward d = some d.deletePairForward := by
  simp only [deletePairForward, around_eq, sliceWithin_eq, delete_eq, deletePair_eq, setCaret_eq,
    Option.bind_eq_bind, Option.bind_some, Document.deletePairForward]
  split
  · rfl
  split
  · exact perform_eq d fun e => by simp
  split
  · rename_i hpair
    simp [sub_of_le (le_of_around rfl hpair)]
  split <;> rfl

theorem quote_eq (d : Document) : quote d = some d.quote := by
  have hc := in_cursor d
  have hkind : d.cursor.here.token.kind = d.cursor.kind := rfl
  simp only [quote, insert_eq, cursor_eq, token_eq hc, start_eq hc, stop_eq hc, withinString_eq hc,
    edit_eq, setCaret_eq, hkind, Option.bind_eq_bind, Option.bind_some, Document.quote]
  split
  · rfl
  split
  · rfl
  split <;> rfl

/-! ## Growing the selection -/

def contentsAround (b : Buffer) (lower upper : Nat) : Option (Option Selection) := do
  let c ← cursorAt b lower
  let d ← cursorAt b upper
  match ← backwardList b c with
  | none => return none
  | some o =>
    match ← forwardList b d with
    | none => return none
    | some e =>
      let anchor ← start b o
      let caret ← start b e
      return some ⟨anchor, caret⟩

def listOf (b : Buffer) (contents : Selection) : Option (Option Selection) := do
  let c ← cursorAt b contents.anchor
  let e ← cursorAt b contents.caret
  match ← backwardUpList b c with
  | none => return none
  | some o =>
    let t ← token b e
    if t.kind = .closing then
      let anchor ← start b o
      let caret ← stop b e
      return some ⟨anchor, caret⟩
    else return none

/-- The unit at a place where nothing is selected. -/
def unit (b : Buffer) (a : Address) (caret : Nat) : Option (Option Selection) := do
  let t ← token b a
  match t.kind with
  | .opening =>
    let n ← next b a
    match ← forwardList b n with
    | none => return none
    | some e =>
      let lower ← start b a
      let upper ← stop b e
      return some ⟨lower, upper⟩
  | .closing =>
    let r ← backSexp b false a
    if r.1 then
      let lower ← start b r.2
      return some ⟨lower, caret⟩
    else return none
  | _ =>
    let lower ← start b a
    let upper ← stop b a
    return some ⟨lower, upper⟩

def grown (b : Buffer) (s : Selection) : Option (Option Selection) := do
  let c ← cursorAt b s.lower
  let t ← token b c
  if s.isEmpty = true ∧ t.kind.isSpace = false then unit b c s.caret
  else
    match ← contentsAround b s.lower s.upper with
    | none => return none
    | some contents =>
      if contents.lower = s.lower ∧ contents.upper = s.upper then listOf b contents
      else return some contents

def grow (d : Document) : Option Document := do
  let current := d.selection
  let d := if d.growth.head? = some current then d else { d with growth := [current] }
  match ← grown d.buffer current with
  | none => return d
  | some s =>
    let d ← select d s
    return { d with growth := d.selection :: d.growth }

def shrink (d : Document) : Option Document :=
  match d.growth with
  | [] => some d
  | top :: rest =>
    match rest with
    | previous :: _ =>
      if top = d.selection then select { d with growth := rest } previous
      else some { d with growth := [] }
    | [] => some { d with growth := [] }

theorem contentsAround_eq (b : Buffer) (lower upper : Nat) :
    contentsAround b lower upper = some (b.contentsAround? lower upper) := by
  have hc := b.in_cursorAt lower
  have hd := b.in_cursorAt upper
  simp only [contentsAround, cursorAt_eq, backwardList_eq hc, forwardList_eq hd,
    Option.bind_eq_bind, Option.bind_some, Buffer.contentsAround?]
  cases ho : (b.cursorAt lower).backwardList? with
  | none => rfl
  | some o =>
    cases he : (b.cursorAt upper).forwardList? with
    | none => rfl
    | some e =>
      simp only [Option.map_some, start_eq (hc.backwardList? ho), start_eq (hd.forwardList? he),
        Option.bind_some]
      rfl

theorem listOf_eq (b : Buffer) (contents : Selection) :
    listOf b contents = some (b.listOf? contents) := by
  have hc := b.in_cursorAt contents.anchor
  have he := b.in_cursorAt contents.caret
  have hkind : (b.cursorAt contents.caret).here.token.kind = (b.cursorAt contents.caret).kind := rfl
  simp only [listOf, cursorAt_eq, backwardUpList_eq hc, token_eq he, stop_eq he, hkind,
    Option.bind_eq_bind, Option.bind_some, Buffer.listOf?]
  cases ho : (b.cursorAt contents.anchor).backwardUpList? with
  | none => rfl
  | some o =>
    simp only [Option.map_some, start_eq (hc.backwardUpList? ho), Option.bind_some]
    split <;> rfl

theorem unit_eq {b : Buffer} {c : Cursor} (h : c.In b) (caret : Nat) :
    unit b c.address caret = some (c.unit? caret) := by
  have hkind : c.here.token.kind = c.kind := rfl
  have hr := h.backwardSexp false
  simp only [unit, token_eq h, next_eq h, forwardList_eq h.next, start_eq h, stop_eq h,
    backSexp_eq h (Or.inl rfl), arrival, start_eq hr, hkind, Option.bind_eq_bind, Option.bind_some,
    Cursor.unit?]
  cases hk : c.kind with
  | opening =>
    cases he : c.next.forwardList? with
    | none => rfl
    | some e =>
      simp only [Option.map_some, stop_eq (h.next.forwardList? he), Option.bind_some]
      rfl
  | closing =>
    simp only
    split <;> rfl
  | _ => rfl

theorem grown_eq (b : Buffer) (s : Selection) : grown b s = some (b.grown? s) := by
  have hc := b.in_cursorAt s.lower
  have hspace : (b.cursorAt s.lower).here.token.kind.isSpace = (b.cursorAt s.lower).onSpace := rfl
  simp only [grown, cursorAt_eq, token_eq hc, unit_eq hc, contentsAround_eq, listOf_eq, hspace,
    Option.bind_eq_bind, Option.bind_some, Buffer.grown?]
  split
  · rfl
  · cases b.contentsAround? s.lower s.upper with
    | none => rfl
    | some contents =>
      simp only
      split <;> rfl

theorem grow_eq (d : Document) : grow d = some d.grow := by
  simp only [grow, grown_eq, select_eq, Option.bind_eq_bind, Option.bind_some, Document.grow]
  cases Buffer.grown? _ _ with
  | none => rfl
  | some s => rfl

theorem shrink_eq (d : Document) : shrink d = some d.shrink := by
  simp only [shrink, select_eq, Document.shrink]
  cases d.growth with
  | nil => rfl
  | cons top rest =>
    cases rest with
    | nil => rfl
    | cons previous rest =>
      simp only
      split <;> rfl

/-! ## Raising and convoluting -/

def raise (d : Document) : Option Document := do
  let b := d.buffer
  if d.selection.isEmpty = false then return d
  else
    let c ← cursorAt b d.caret
    let c ← forwardSpace b true c
    let r ← forwardSexp b true c
    if r.1 = false then return d
    else
      let lower ← start b c
      let upper ← start b r.2
      let raised ← slice b lower upper
      let o ← backwardList b c
      let e ← forwardList b r.2
      let opener ← prevToken b (o.getD c)
      if opener.kind = .opening then
        let front ← prev b (o.getD c)
        let closer ← token b (e.getD r.2)
        if closer.kind = .closing then
          let place ← start b front
          let back ← stop b (e.getD r.2)
          edit d place back raised place
        else return d
      else return d

structure Nested where
  innerOpener : Address
  innerCloser : Address
  outerOpener : Address
  outerCloser : Address
  head : Text

def nesting (b : Buffer) (a : Address) (caret : Nat) : Option (Option Nested) := do
  match ← backwardList b a with
  | none => return none
  | some inside =>
    match ← forwardList b a with
    | none => return none
    | some innerCloser =>
      let inner ← start b inside
      let head ← slice b inner caret
      let innerOpener ← prev b inside
      match ← backwardList b innerOpener with
      | none => return none
      | some outside =>
        match ← backwardUpList b outside with
        | none => return none
        | some outerOpener =>
          match ← forwardList b innerOpener with
          | none => return none
          | some outerCloser =>
            return some ⟨innerOpener, innerCloser, outerOpener, outerCloser, head⟩

def convolute (d : Document) : Option Document := do
  let b := d.buffer
  let caret := d.caret
  if d.selection.isEmpty = false then return d
  else
    let c ← cursorAt b caret
    match ← nesting b c caret with
    | none => return d
    | some n =>
      let opener ← token b n.innerOpener
      let closer ← token b n.innerCloser
      let outerStop ← stop b n.outerCloser
      let closerStart ← start b n.innerCloser
      let closerStop ← stop b n.innerCloser
      let openerStart ← start b n.innerOpener
      let outerStart ← start b n.outerOpener
      perform (fun d => do
        let d ← splice d outerStop outerStop closer.raw
        let d ← splice d closerStart closerStop []
        let d ← splice d openerStart caret []
        let d ← splice d outerStart outerStart (opener.raw ++ n.head)
        setCaret d caret) d

theorem raise_eq (d : Document) : raise d = some d.raise := by
  have hc := (in_cursor d).forwardSpace true
  have hr := hc.forwardSexp true
  simp only [raise, cursor_eq, forwardSpace_eq (in_cursor d), forwardSexp_eq hc (Or.inl rfl),
    arrival, start_eq hc, start_eq hr, slice_eq, backwardList_eq hc, forwardList_eq hr,
    Option.bind_eq_bind, Option.bind_some, Document.raise]
  cases d.selection.isEmpty with
  | false => rfl
  | true =>
    cases hfound : ((d.cursor.forwardSpace true).forwardSexp true).found with
    | false => rfl
    | true =>
      generalize d.cursor.forwardSpace true = c at *
      generalize (c.forwardSexp true).cursor = r at *
      have ho : (c.backwardList?.getD c).In d.buffer := by
        cases ho : c.backwardList? with
        | none => exact hc
        | some o => exact hc.backwardList? ho
      have he : (r.forwardList?.getD r).In d.buffer := by
        cases he : r.forwardList? with
        | none => exact hr
        | some e => exact hr.forwardList? he
      have hkind : (r.forwardList?.getD r).here.token.kind = (r.forwardList?.getD r).kind := rfl
      simp only [Option.getD_map, prevToken_eq ho, prev_eq ho, token_eq he, stop_eq he,
        start_eq ho.prev, edit_eq, Option.bind_some, Cursor.kind_prevToken, hkind]
      by_cases hopening : (c.backwardList?.getD c).prevKind = .opening
      · by_cases hclosing : (r.forwardList?.getD r).kind = .closing
        · simp [hopening, hclosing]
        · simp [hopening, hclosing]
      · simp [hopening]

theorem nesting_eq {b : Buffer} {c : Cursor} (h : c.In b) (caret : Nat) :
    nesting b c.address caret = some ((Document.nesting? c).map fun n =>
      ⟨n.innerOpener.address, n.innerCloser.address, n.outerOpener.address, n.outerCloser.address,
        b.slice n.innerOpener.next.start caret⟩) := by
  simp only [nesting, backwardList_eq h, forwardList_eq h, Option.bind_eq_bind, Option.bind_some,
    Document.nesting?]
  cases ho : c.backwardList? with
  | none => rfl
  | some inside =>
    have hin := h.backwardList? ho
    have hback := next_prev_of_backwardList? ho
    cases he : c.forwardList? with
    | none => rfl
    | some innerCloser =>
      simp only [Option.map_some, start_eq hin, prev_eq hin, slice_eq, backwardList_eq hin.prev,
        forwardList_eq hin.prev, Option.bind_some]
      cases hout : inside.prev.backwardList? with
      | none => rfl
      | some outside =>
        have houtin := hin.prev.backwardList? hout
        simp only [Option.map_some, backwardUpList_eq houtin, Option.bind_some]
        cases hup : outside.backwardUpList? with
        | none => rfl
        | some outerOpener =>
          cases hclose : inside.prev.forwardList? with
          | none => rfl
          | some outerCloser =>
            simp only [Option.map_some, Option.bind_some, Option.pure_def, hback]

theorem convolute_eq (d : Document) : convolute d = some d.convolute := by
  have hc := in_cursor d
  simp only [convolute, cursor_eq, nesting_eq hc, Option.bind_eq_bind, Option.bind_some,
    Document.convolute]
  by_cases hselected : d.selection.isEmpty = false
  · rw [if_pos hselected, if_pos hselected]
    rfl
  rw [if_neg hselected, if_neg hselected]
  cases hn : Document.nesting? d.cursor with
  | none => rfl
  | some n =>
    obtain ⟨inside, outside, ho, he, hinner, hout, hup, hclose⟩ := Document.nesting?_eq_some hn
    have hio : n.innerOpener.In d.buffer := by
      rw [hinner]
      exact (hc.backwardList? ho).prev
    have hic := hc.forwardList? he
    have hoo := (hio.backwardList? hout).backwardUpList? hup
    have hoc := hio.forwardList? hclose
    simp only [Option.map_some, token_eq hio, token_eq hic, start_eq hio, start_eq hic,
      stop_eq hic, stop_eq hoc, start_eq hoo, Option.bind_some]
    exact perform_eq d fun e => by simp; rfl

/-! ## Reading -/

def ofText (s : Text) : Option Document := do
  let b ← replace .empty 0 0 (normalizeBreaks s)
  let b ← flush b
  return .ofBuffer b.takeChanges.2

def text (b : Buffer) : Option Text := do
  let limit ← maxOffset b
  slice b 0 limit

def canReturn (d : Document) : Option Bool :=
  if d.selection.isEmpty then do
    let limit ← maxOffset d.buffer
    return d.caret == limit
  else some false

def bracketAt (b : Buffer) (offset : Nat) : Option (Option BracketPair) := do
  let c ← cursorAt b offset
  let t ← token b c
  match t.kind with
  | .closing =>
    let place ← start b c
    match ← backwardList b c with
    | none => return some ⟨none, some place, false⟩
    | some inside =>
      let o ← prev b inside
      let front ← start b o
      let opener ← token b o
      return some ⟨some front, some place, Bracket.paired opener.raw t.raw⟩
  | .opening =>
    let place ← start b c
    let n ← next b c
    match ← forwardList b n with
    | none => return some ⟨some place, none, false⟩
    | some e =>
      let back ← start b e
      let closer ← token b e
      return some ⟨some place, some back, Bracket.paired t.raw closer.raw⟩
  | _ => return none

theorem ofText_eq (s : Text) : ofText s = some (.ofText s) := by
  simp only [ofText, replace_eq, flush_eq, Option.bind_eq_bind, Option.bind_some]
  rfl

theorem text_eq (b : Buffer) : text b = some b.text := by
  rw [text, maxOffset_eq, Option.bind_eq_bind, Option.bind_some, slice_eq, b.slice_maxOffset]

theorem canReturn_eq (d : Document) : canReturn d = some d.canReturn := by
  unfold canReturn Document.canReturn
  cases d.selection.isEmpty with
  | false => rfl
  | true =>
    rw [if_pos rfl, maxOffset_eq]
    rfl

theorem bracketAt_eq (b : Buffer) (offset : Nat) :
    bracketAt b offset = some (b.bracketAt? offset) := by
  have hc := b.in_cursorAt offset
  have hkind : (b.cursorAt offset).here.token.kind = (b.cursorAt offset).kind := rfl
  simp only [bracketAt, cursorAt_eq, token_eq hc, start_eq hc, next_eq hc, backwardList_eq hc,
    forwardList_eq hc.next, hkind, Option.bind_eq_bind, Option.bind_some, Buffer.bracketAt?]
  cases (b.cursorAt offset).kind with
  | closing =>
    cases ho : (b.cursorAt offset).backwardList? with
    | none => rfl
    | some inside =>
      have hin := (hc.backwardList? ho)
      simp only [Option.map_some, prev_eq hin, start_eq hin.prev, token_eq hin.prev,
        Option.bind_some]
      rfl
  | opening =>
    cases he : (b.cursorAt offset).next.forwardList? with
    | none => rfl
    | some e =>
      have hein := hc.next.forwardList? he
      simp only [Option.map_some, start_eq hein, token_eq hein, Option.bind_some]
      rfl
  | _ => rfl

/-! ## Any command -/

/-- The document of a command that is never refused. -/
def finish (o : Option Document) : Option (Document × Reply) := o.map fun d => (d, .done)

def run (c : Command) (d : Document) : Option (Document × Reply) :=
  match c with
  | .insert text => finish (insert d text)
  | .replaceAll text => finish (replaceAll d text)
  | .deleteSelection => finish (deleteSelection d)
  | .backspace => finish (backspace d)
  | .delete => finish (delete d)
  | .newline => finish (newline d)
  | .undo => finish (undo d)
  | .redo => finish (redo d)
  | .left clear => finish (left d clear)
  | .right clear => finish (right d clear)
  | .home clear => finish (home d clear)
  | .toLineEnd clear => finish (toLineEnd d clear)
  | .toStart clear => finish (toStart d clear)
  | .toEnd clear => finish (toEnd d clear)
  | .up clear => finish (up d clear)
  | .down clear => finish (down d clear)
  | .selectAll => finish (selectAll d)
  | .setCaret offset => finish (setCaret d offset)
  | .select s => finish (select d s)
  | .setAnchor offset => finish (setAnchor d offset)
  | .stretchTo offset => finish (stretchTo d offset)
  | .wrap opener closer => (wrap d opener closer).map (Prod.map id .ofUnit)
  | .split => finish (split d)
  | .join => (join d).map (Prod.map id .ofUnit)
  | .splice => (spliceAt d d.caret).map (Prod.map id .ofUnit)
  | .spliceAt offset => (spliceAt d offset).map (Prod.map id .ofUnit)
  | .killBackward offset => (killBackward d (offset.getD d.caret)).map (Prod.map id .ofOffset)
  | .killForward offset => (killForward d (offset.getD d.caret)).map (Prod.map id .ofOffset)
  | .spliceKillingBackward => (spliceKillingBackward d).map (Prod.map id .ofUnit)
  | .spliceKillingForward => (spliceKillingForward d).map (Prod.map id .ofUnit)
  | .slurpForward => finish (slurpForward d)
  | .slurpBackward => finish (slurpBackward d)
  | .barfForward => finish (barfForward d)
  | .barfBackward => finish (barfBackward d)
  | .openPair pair => finish (openPair d pair)
  | .closeList closer => finish (closeList d closer)
  | .backspacePair => finish (backspacePair d)
  | .deletePairForward => finish (deletePairForward d)
  | .quote => finish (quote d)
  | .grow => finish (grow d)
  | .shrink => finish (shrink d)
  | .raise => finish (raise d)
  | .convolute => finish (convolute d)

/-- Only slurping and barfing need the lines to be without breaks: they look at the token after a
comment. -/
theorem run_eq {d : Document} (h : d.buffer.Unbroken) (c : Command) :
    run c d = some (c.run d) := by
  cases c <;>
    simp only [run, finish, Command.run, insert_eq, replaceAll_eq, deleteSelection_eq, backspace_eq,
      delete_eq, newline_eq, undo_eq, redo_eq, left_eq, right_eq, home_eq, toLineEnd_eq, toStart_eq,
      toEnd_eq, up_eq, down_eq, selectAll_eq, setCaret_eq, select_eq, setAnchor_eq, stretchTo_eq,
      wrap_eq, split_eq, join_eq, spliceAt_eq, killBackward_eq, killForward_eq,
      spliceKillingBackward_eq, spliceKillingForward_eq, slurpForward_eq h, slurpBackward_eq,
      barfForward_eq, barfBackward_eq h, openPair_eq, closeList_eq, backspacePair_eq,
      deletePairForward_eq, quote_eq, grow_eq, shrink_eq, raise_eq, convolute_eq, Option.map_some]
  case splice => rfl

end Checked

/-- After any commands, with any arguments, the next command has all its differences and look-ups,
whatever its arguments are, and so has reading the text, a pair of brackets or whether the caret is
at the end. A document that is made from a text has them too. -/
theorem checked_runAll {d₀ : Document} (h : d₀.Fresh fun _ => True) (cs : List Command) :
    let d := Command.runAll cs d₀
    (∀ c : Command, Checked.run c d = some (c.run d)) ∧
    (∀ offset : Nat, Checked.bracketAt d.buffer offset = some (d.buffer.bracketAt? offset)) ∧
    Checked.text d.buffer = some d.text ∧ Checked.canReturn d = some d.canReturn ∧
    ∀ s : Text, Checked.ofText s = some (.ofText s) := by
  intro d
  have hd : d.Standing := Command.standing_runAll h.standing cs
  exact ⟨Checked.run_eq hd.unbroken, Checked.bracketAt_eq d.buffer, Checked.text_eq d.buffer,
    Checked.canReturn_eq d, Checked.ofText_eq⟩

/-- Splicing far behind the end of an unbalanced text. -/
theorem checked_runAll_spliceAt :
    let d := Command.runAll [.selectAll, .insert [')', '"', '\n'], .undo] (.ofText ['(', '[', 'a'])
    Checked.run (.spliceAt 9007199254740992) d =
      some ((Command.spliceAt 9007199254740992).run d) :=
  (checked_runAll (.ofText trivial : Document.Fresh (fun _ => True) (.ofText ['(', '[', 'a']))
    [.selectAll, .insert [')', '"', '\n'], .undo]).1 (.spliceAt 9007199254740992)

end StructEdit
