import StructEdit.Document.Slurp
import StructEdit.Proofs.Checked.Documents
import StructEdit.Proofs.Checked.Motions

/-!
# Checked commands on lists

Wrapping, splitting, joining, splicing, killing, slurping and barfing. The differences are those
between the place of a delimiter and its length. They have values because a motion back out of a
list ends right behind the opening bracket, and because it ends at or before the place where it
started.
-/
namespace StructEdit
open Text

namespace Checked
open Address

/-- Puts `text` in the place of the characters between two offsets and the caret to its place, as
one step. -/
def edit (d : Document) (i j : Nat) (text : Text) (caret : Nat) : Option Document :=
  perform (fun d => do
    let d ← splice d i j text
    setCaret d caret) d

theorem edit_eq (d : Document) (i j : Nat) (text : Text) (caret : Nat) :
    edit d i j text caret = some (d.perform fun d => (d.splice i j text).setCaret caret) :=
  perform_eq d fun e => by simp

/-! ## Wrapping and splitting -/

def wrap (d : Document) (opener closer : Text) : Option (Outcome Unit) := do
  let sel := d.selection
  let c ← cursorAt d.buffer sel.upper
  if ← withinString d.buffer c then return .refused d .wrap
  else
    let stop ←
      if sel.isEmpty then (forwardSexp d.buffer true c).bind fun r => start d.buffer r.2
      else some sel.upper
    let wrapped ← perform (fun d => do
      let d ← splice d stop stop closer
      let d ← splice d sel.lower sel.lower opener
      if sel.isEmpty then setCaret d (sel.lower + opener.length)
      else select d (sel.shift opener.length)) d
    return .done wrapped ()

def around (b : Buffer) (offset back ahead : Nat) : Option Text :=
  if back ≤ offset then do
    let i ← sub offset back
    sliceWithin b i (offset + ahead)
  else some []

def splitString (d : Document) (offset : Nat) : Option Document := do
  let near ← around d.buffer offset 1 1
  let place := if near = ['\\', '"'] then offset + 1 else offset
  edit d place place ['"', ' ', '"'] (place + 1)

def split (d : Document) : Option Document := do
  let b := d.buffer
  let c ← cursorAt b d.caret
  if ← withinString b c then splitString d d.caret
  else
    let c ← backwardSpace b true c
    let gapStart ← start b c
    let n ← forwardSpace b true c
    let gapStop ← start b n
    match ← backwardList b c with
    | none => return d
    | some o =>
      let opener ← prevToken b o
      match ← forwardList b o with
      | none => return d
      | some e =>
        let closer ← token b e
        edit d gapStart gapStop (closer.raw ++ ' ' :: opener.raw) (gapStart + 1)

@[simp] theorem around_eq (b : Buffer) (offset back ahead : Nat) :
    around b offset back ahead = some (b.around offset back ahead) := by
  unfold around Buffer.around
  split
  · rename_i hle
    rw [sub_of_le hle, Option.bind_eq_bind, Option.bind_some, sliceWithin_eq]
  · rfl

theorem wrap_eq (d : Document) (opener closer : Text) :
    wrap d opener closer = some (d.wrap opener closer) := by
  have hc := d.buffer.in_cursorAt d.selection.upper
  have hr := hc.forwardSexp true
  simp only [wrap, cursorAt_eq, withinString_eq hc, forwardSexp_eq hc (Or.inl rfl), arrival,
    start_eq hr, Option.bind_eq_bind, Option.bind_some, Document.wrap]
  by_cases hstring : (d.buffer.cursorAt d.selection.upper).withinString = true
  · simp [hstring]
  · by_cases hempty : d.selection.isEmpty = true <;>
      simp only [hstring, hempty, ↓reduceIte, Bool.false_eq_true] <;>
      rw [perform_eq d fun e => by simp; rfl] <;> rfl

theorem splitString_eq (d : Document) (offset : Nat) :
    splitString d offset = some (d.splitString offset) := by
  simp only [splitString, around_eq, edit_eq, Option.bind_eq_bind, Option.bind_some]
  rfl

theorem cursor_eq (d : Document) : cursorAt d.buffer d.caret = some d.cursor.address :=
  cursorAt_eq d.buffer d.caret

theorem in_cursor (d : Document) : d.cursor.In d.buffer := d.buffer.in_cursorAt d.caret

theorem split_eq (d : Document) : split d = some d.split := by
  have hin := in_cursor d
  have hc := hin.backwardSpace true
  simp only [split, cursor_eq, withinString_eq hin, splitString_eq, backwardSpace_eq hin,
    start_eq hc, forwardSpace_eq hc, start_eq (hc.forwardSpace true), backwardList_eq hc,
    Option.bind_eq_bind, Option.bind_some, Document.split]
  cases d.cursor.withinString with
  | true => rfl
  | false =>
    cases ho : (d.cursor.backwardSpace true).backwardList? with
    | none => rfl
    | some o =>
      have hoin := hc.backwardList? ho
      simp only [Option.map_some, prevToken_eq hoin, forwardList_eq hoin, Option.bind_some]
      cases he : o.forwardList? with
      | none => rfl
      | some e =>
        simp only [Option.map_some, token_eq (hoin.forwardList? he), Option.bind_some, edit_eq]
        rfl

/-! ## Joining and splicing -/

/-- How two tokens are joined, with the delimiter in front of the gap counted back from it. -/
def joint (left right : Token) (gapStart gapStop : Nat) : Option (Option Document.Joint) :=
  match left.kind, right.kind with
  | .string, .string | .string, .stringStart | .stringEnd, .string | .stringEnd, .stringStart => do
    let place ← sub gapStart 1
    return some ⟨place, gapStop + 1, [], place⟩
  | .closing, .opening =>
    if Bracket.paired left.raw right.raw then do
      let place ← sub gapStart left.length
      return some ⟨place, gapStop + right.length, [' '], place + 1⟩
    else some none
  | _, _ => some none

def join (d : Document) : Option (Outcome Unit) := do
  let b := d.buffer
  let c ← cursorAt b d.caret
  let c ← backwardSpace b true c
  let left ← prevToken b c
  let gapStart ← start b c
  if ← withinString b c then return .refused d .join
  else
    let n ← forwardSpace b true c
    let right ← token b n
    let gapStop ← start b n
    match ← joint left right gapStart gapStop with
    | none => return .done d ()
    | some j =>
      let joined ← edit d j.start j.stop j.text j.caret
      return .done joined ()

def spliceAt (d : Document) (offset : Nat) : Option (Outcome Unit) := do
  let b := d.buffer
  let c ← cursorAt b offset
  if ← withinString b c then return .refused d .splice
  else
    match ← backwardList b c with
    | none => return .done d ()
    | some o =>
      let opener ← prevToken b o
      let inside ← start b o
      match ← forwardList b o with
      | none => return .done d ()
      | some e =>
        let closer ← token b e
        if Bracket.paired opener.raw closer.raw then
          let stop ← start b e
          let spliced ← perform (fun d => do
            let d ← splice d stop (stop + closer.length) []
            let front ← sub inside opener.length
            let d ← splice d front inside []
            let caret ← sub offset opener.length
            setCaret d caret) d
          return .done spliced ()
        else return .done d ()

/-- The token behind a cursor has room before it. -/
theorem prevToken_length_le {b : Buffer} {c : Cursor} (h : c.In b) (hk : c.prevKind ≠ .lineEnd) :
    0 < c.prevToken.length ∧ c.prevToken.length ≤ c.start := by
  obtain ⟨hin, hkind, hraw, hstop, -⟩ := h.behind hk
  have hpos := hin.raw_length_pos
  rw [hin.stop_eq (hkind ▸ hk), hraw] at hstop
  rw [hraw] at hpos
  rw [Token.length]
  omega

theorem joint_eq {b : Buffer} {c : Cursor} (h : c.In b) (right : Token) (gapStop : Nat) :
    joint c.prevToken right c.start gapStop =
      some (Document.joint? c.prevToken right c.start gapStop) := by
  have hroom : c.prevToken.kind ≠ .lineEnd → 1 ≤ c.start ∧ c.prevToken.length ≤ c.start := by
    intro hk
    have := prevToken_length_le h (c.kind_prevToken ▸ hk)
    omega
  unfold joint Document.joint?
  split
  iterate 4
    rename_i hl hr
    have hone := (hroom (by rw [hl]; simp)).1
    simp_all [sub_of_le hone]
  · rename_i hl hr
    have hleft := (hroom (by rw [hl]; simp)).2
    split <;> simp_all [sub_of_le hleft]
  · simp_all

/-- A gap at the very start has no place for the string that would stand before it. -/
example : joint ⟨.string, ['"', '"'], 0, .code⟩ ⟨.string, ['"', '"'], 0, .code⟩ 0 1 = none := rfl

theorem join_eq (d : Document) : join d = some d.join := by
  have hin := in_cursor d
  have hc := hin.backwardSpace true
  have hn := hc.forwardSpace true
  simp only [join, cursor_eq, backwardSpace_eq hin, prevToken_eq hc, start_eq hc,
    withinString_eq hc, forwardSpace_eq hc, token_eq hn, start_eq hn, joint_eq hc, edit_eq,
    Option.bind_eq_bind, Option.bind_some, Document.join]
  cases (d.cursor.backwardSpace true).withinString with
  | true => rfl
  | false =>
    cases Document.joint? _ _ _ _ with
    | none => rfl
    | some j => rfl

theorem spliceAt_eq (d : Document) (offset : Nat) :
    spliceAt d offset = some (d.spliceAt offset) := by
  have hc := d.buffer.in_cursorAt offset
  simp only [spliceAt, cursorAt_eq, withinString_eq hc, backwardList_eq hc, Option.bind_eq_bind,
    Option.bind_some, Document.spliceAt]
  cases (d.buffer.cursorAt offset).withinString with
  | true => rfl
  | false =>
    cases ho : (d.buffer.cursorAt offset).backwardList? with
    | none => rfl
    | some o =>
      have hoin := hc.backwardList? ho
      have hk := (Cursor.backwardList?_eq_some ho).2
      have hroom := (prevToken_length_le hoin (by rw [hk]; simp)).2
      have hfront := hoin.start_mono hc (Cursor.before_length_backwardList?_le ho)
      have hcaret : o.prevToken.length ≤ offset :=
        Nat.le_trans (Nat.le_trans hroom hfront) (d.buffer.start_cursorAt_le offset)
      simp only [Option.map_some, prevToken_eq hoin, start_eq hoin, forwardList_eq hoin,
        Option.bind_some, sub_of_le hroom, sub_of_le hcaret]
      cases he : o.forwardList? with
      | none => rfl
      | some e =>
        have hein := hoin.forwardList? he
        have hraw : e.here.token.raw = e.raw := rfl
        simp only [Option.map_some, token_eq hein, start_eq hein, Option.bind_some, hraw]
        cases Bracket.paired o.prevToken.raw e.raw with
        | false => rfl
        | true =>
          simp only [↓reduceIte]
          rw [perform_eq d fun e => by simp; rfl]
          rfl

/-! ## Killing -/

def killBackward (d : Document) (offset : Nat) : Option (Outcome Nat) := do
  let c ← cursorAt d.buffer offset
  if ← withinString d.buffer c then return .refused d .killBackward
  else
    match ← backwardList d.buffer c with
    | none => return .done d offset
    | some o =>
      let place ← start d.buffer o
      let killed ← edit d place offset [] place
      return .done killed place

def inComment (b : Buffer) (a : Address) (offset : Nat) : Option Bool := do
  let t ← token b a
  let n ← start b a
  if t.kind = .comment ∧ n < offset then return true
  else
    let p ← prevToken b a
    return p.kind == .comment

def killForward (d : Document) (offset : Nat) : Option (Outcome Nat) := do
  let c ← cursorAt d.buffer offset
  let comment ← inComment d.buffer c offset
  if ← withinString d.buffer c then return .refused d .killForward
  else
    match ← forwardList d.buffer c with
    | none => return .done d offset
    | some e =>
      let place ← start d.buffer e
      let killed ← edit d offset place (if comment then ['\n'] else []) offset
      return .done killed offset

/-- Goes on with what the first command gave, unless it refused. -/
def andThen {α β : Type} (o : Option (Outcome α)) (next : Document → α → Option (Outcome β)) :
    Option (Outcome β) := do
  match ← o with
  | (d, .ok a) => next d a
  | (d, .error r) => return (d, .error r)

def spliceKillingBackward (d : Document) : Option (Outcome Unit) :=
  transaction (fun d' => andThen (killBackward d' d.caret) spliceAt) d

def spliceKillingForward (d : Document) : Option (Outcome Unit) :=
  transaction (fun d' => andThen (killForward d' d.caret) spliceAt) d

theorem killBackward_eq (d : Document) (offset : Nat) :
    killBackward d offset = some (d.killBackward offset) := by
  have hc := d.buffer.in_cursorAt offset
  simp only [killBackward, cursorAt_eq, withinString_eq hc, backwardList_eq hc,
    Option.bind_eq_bind, Option.bind_some, Document.killBackward]
  cases (d.buffer.cursorAt offset).withinString with
  | true => rfl
  | false =>
    cases ho : (d.buffer.cursorAt offset).backwardList? with
    | none => rfl
    | some o =>
      simp only [Option.map_some, start_eq (hc.backwardList? ho), edit_eq, Option.bind_some]
      rfl

theorem inComment_eq {b : Buffer} {c : Cursor} (h : c.In b) (offset : Nat) :
    inComment b c.address offset = some (c.inComment offset) := by
  have hkind : c.here.token.kind = c.kind := rfl
  simp only [inComment, token_eq h, start_eq h, prevToken_eq h, Option.bind_eq_bind,
    Option.bind_some, Cursor.inComment, hkind, Cursor.kind_prevToken]
  by_cases hinside : c.kind = .comment ∧ c.start < offset
  · simp [hinside]
  · have hfalse : (c.kind == .comment && decide (c.start < offset)) = false := by
      simpa using hinside
    rw [if_neg hinside, hfalse, Bool.false_or]
    rfl

theorem killForward_eq (d : Document) (offset : Nat) :
    killForward d offset = some (d.killForward offset) := by
  have hc := d.buffer.in_cursorAt offset
  simp only [killForward, cursorAt_eq, inComment_eq hc, withinString_eq hc, forwardList_eq hc,
    Option.bind_eq_bind, Option.bind_some, Document.killForward]
  cases (d.buffer.cursorAt offset).withinString with
  | true => rfl
  | false =>
    cases he : (d.buffer.cursorAt offset).forwardList? with
    | none => rfl
    | some e =>
      simp only [Option.map_some, start_eq (hc.forwardList? he), edit_eq, Option.bind_some]
      rfl

theorem andThen_eq {α β : Type} (o : Outcome α) {next : Document → α → Option (Outcome β)}
    {plain : Document → α → Outcome β} (h : ∀ d a, next d a = some (plain d a)) :
    andThen (some o) next = some (o.andThen plain) := by
  obtain ⟨d, r⟩ := o
  cases r with
  | ok a => exact h d a
  | error r => rfl

theorem spliceKillingBackward_eq (d : Document) :
    spliceKillingBackward d = some d.spliceKillingBackward :=
  transaction_eq d fun e => by
    rw [killBackward_eq]
    exact andThen_eq _ spliceAt_eq

theorem spliceKillingForward_eq (d : Document) :
    spliceKillingForward d = some d.spliceKillingForward :=
  transaction_eq d fun e => by
    rw [killForward_eq]
    exact andThen_eq _ spliceAt_eq

/-! ## Slurping and barfing -/

def carryForward (d : Document) (delimiter : Text) (source target : Nat) : Option Document :=
  perform (fun d => do
    let d ← splice d target target delimiter
    splice d source (source + delimiter.length) []) d

def carryBackward (d : Document) (delimiter : Text) (source target : Nat) : Option Document :=
  perform (fun d => do
    let d ← splice d source (source + delimiter.length) []
    splice d target target delimiter) d

def slurpForward (d : Document) : Option Document := do
  let b := d.buffer
  let c ← cursorAt b d.caret
  match ← forwardList b c with
  | none => return d
  | some e =>
    let source ← start b e
    let closer ← token b e
    let n ← next b e
    let r ← forwardSexp b false n
    if r.1 then
      let place ← backwardSpace b false r.2
      let target ← start b place
      carryForward d closer.raw source target
    else return d

def slurpBackward (d : Document) : Option Document := do
  let b := d.buffer
  let c ← cursorAt b d.caret
  match ← backwardList b c with
  | none => return d
  | some inside =>
    let o ← prev b inside
    let source ← start b o
    let opener ← token b o
    let r ← backSexp b false o
    if r.1 then
      let place ← forwardSpace b false r.2
      let target ← start b place
      carryBackward d opener.raw source target
    else return d

def barfForward (d : Document) : Option Document := do
  let b := d.buffer
  let c ← cursorAt b d.caret
  match ← forwardList b c with
  | none => return d
  | some e =>
    let source ← start b e
    let closer ← token b e
    let r ← backSexp b false e
    if r.1 then
      let place ← backwardSpace b true r.2
      let target ← start b place
      carryBackward d closer.raw source target
    else return d

def barfBackward (d : Document) : Option Document := do
  let b := d.buffer
  let c ← cursorAt b d.caret
  match ← backwardList b c with
  | none => return d
  | some inside =>
    let o ← prev b inside
    let source ← start b o
    let opener ← token b o
    let n ← next b o
    let r ← forwardSexp b false n
    if r.1 then
      let place ← forwardSpace b false r.2
      let target ← start b place
      carryForward d opener.raw source target
    else return d

theorem carryForward_eq (d : Document) (delimiter : Text) (source target : Nat) :
    carryForward d delimiter source target = some (d.carryForward delimiter source target) :=
  perform_eq d fun e => by simp

theorem carryBackward_eq (d : Document) (delimiter : Text) (source target : Nat) :
    carryBackward d delimiter source target = some (d.carryBackward delimiter source target) :=
  perform_eq d fun e => by simp

theorem slurpForward_eq {d : Document} (hu : d.buffer.Unbroken) :
    slurpForward d = some d.slurpForward := by
  have hc := in_cursor d
  simp only [slurpForward, cursor_eq, forwardList_eq hc, Option.bind_eq_bind, Option.bind_some,
    Document.slurpForward]
  cases he : d.cursor.forwardList? with
  | none => rfl
  | some e =>
    have hein := hc.forwardList? he
    have hr := hein.next.forwardSexp false
    simp only [Option.map_some, start_eq hein, token_eq hein, next_eq hein,
      forwardSexp_eq hein.next (Or.inr hu), arrival, backwardSpace_eq hr,
      start_eq (hr.backwardSpace false), carryForward_eq, Option.bind_some]
    split <;> rfl

theorem slurpBackward_eq (d : Document) : slurpBackward d = some d.slurpBackward := by
  have hc := in_cursor d
  simp only [slurpBackward, cursor_eq, backwardList_eq hc, Option.bind_eq_bind, Option.bind_some,
    Document.slurpBackward]
  cases ho : d.cursor.backwardList? with
  | none => rfl
  | some inside =>
    have hin := hc.backwardList? ho
    have hr := hin.prev.backwardSexp false
    simp only [Option.map_some, prev_eq hin, start_eq hin.prev, token_eq hin.prev,
      backSexp_eq hin.prev (Or.inl rfl), arrival, forwardSpace_eq hr,
      start_eq (hr.forwardSpace false), carryBackward_eq, Option.bind_some]
    split <;> rfl

theorem barfForward_eq (d : Document) : barfForward d = some d.barfForward := by
  have hc := in_cursor d
  simp only [barfForward, cursor_eq, forwardList_eq hc, Option.bind_eq_bind, Option.bind_some,
    Document.barfForward]
  cases he : d.cursor.forwardList? with
  | none => rfl
  | some e =>
    have hein := hc.forwardList? he
    have hr := hein.backwardSexp false
    simp only [Option.map_some, start_eq hein, token_eq hein, backSexp_eq hein (Or.inl rfl), arrival,
      backwardSpace_eq hr, start_eq (hr.backwardSpace true), carryBackward_eq, Option.bind_some]
    split <;> rfl

/-- A step back from inside a list and a step on lead inside again. -/
theorem next_prev_of_backwardList? {c inside : Cursor} (h : c.backwardList? = some inside) :
    inside.prev.next = inside := by
  have hk := (Cursor.backwardList?_eq_some h).2
  exact Cursor.next_prev (by rw [hk]; simp)

theorem barfBackward_eq {d : Document} (hu : d.buffer.Unbroken) :
    barfBackward d = some d.barfBackward := by
  have hc := in_cursor d
  simp only [barfBackward, cursor_eq, backwardList_eq hc, Option.bind_eq_bind, Option.bind_some,
    Document.barfBackward]
  cases ho : d.cursor.backwardList? with
  | none => rfl
  | some inside =>
    have hin := hc.backwardList? ho
    have hback := next_prev_of_backwardList? ho
    have hr := hin.forwardSexp false
    simp only [Option.map_some, prev_eq hin, start_eq hin.prev, token_eq hin.prev,
      next_eq hin.prev, hback, forwardSexp_eq hin (Or.inr hu), arrival, forwardSpace_eq hr,
      start_eq (hr.forwardSpace false), carryForward_eq, Option.bind_some]
    split <;> rfl

end Checked
end StructEdit
