import StructEdit.Proofs.Checked.Buffer

/-!
# A checked flush

A flush with look-ups works off the marked rows from the top. From each of them it goes down, as
long as a row was scanned in another mode than the row above it now ends in, and it remembers
the rows it has been to. A row is looked up by its number, and the length of a run is a difference.

The flush of the library is one pass over all rows, marked or not. Between two runs it leaves the
rows alone, and where a run ends the row below agrees with the one above, so the two do the same.
-/
namespace StructEdit

/-- The rows of a run, from the top down. -/
def Run.rows (r : Run) : List Nat := List.range' r.first r.count

namespace Checked

structure Pass where
  lines : List Line
  /-- The rows it has scanned. -/
  seen : List Nat
  /-- The rows noted as changed. -/
  changed : List Nat

/-- The mode that the row above ends in. -/
def modeAbove (lines : List Line) : Nat → Mode
  | 0 => .code
  | row + 1 => (lines[row]?).elim .code Line.stop

/-- Scans a row and goes on below it, as long as the mode does not fit. Gives the row where it
stopped. -/
def Pass.cascade (p : Pass) (row : Nat) (mode : Mode) : Option (Pass × Nat) := do
  let old ← p.lines[row]?
  let l := Line.scan old.text mode
  let p : Pass := ⟨p.lines.set row l, row :: p.seen, insertRow row p.changed⟩
  match p.lines[row + 1]? with
  | none => return (p, row + 1)
  | some below =>
    if below.start ≠ l.stop then p |>.cascade (row + 1) l.stop else return (p, row + 1)
partial_fixpoint

/-- Works off one marked row, unless a run came by it already. A run of several rows is reported
with its last row. -/
def scanRow (p : Pass) (first : Nat) : Option Pass :=
  if first ∈ p.seen ∨ p.lines.length ≤ first then some p
  else do
    let (p, stop) ← p.cascade first (modeAbove p.lines first)
    let count ← sub stop first
    if 1 < count then
      let _last ← sub stop 1
      return p
    else return p

/-- Works off the marked rows of a queue and tells the runs that they start, in order. -/
def workOff (p : Pass) : List Nat → Option (Pass × List Run)
  | [] => some (p, [])
  | first :: queue =>
    if first ∈ p.seen ∨ p.lines.length ≤ first then workOff p queue
    else do
      let (q, stop) ← p.cascade first (modeAbove p.lines first)
      let count ← sub stop first
      let (r, runs) ← workOff q queue
      return (r, ⟨first, count⟩ :: runs)

def flush (b : Buffer) : Option Buffer :=
  if b.dirty = [] then some b
  else do
    let p ← (b.dirty.mergeSort (fun r s => r ≤ s)).foldlM scanRow ⟨b.lines, [], b.changes.changed⟩
    ofLines p.lines [] { b.changes with changed := p.changed }

/-! ## One pass in pieces -/

/-- The mode that the last of the lines ends in. -/
def lastMode (lines : List Line) : Mode := (lines.getLast?).elim .code Line.stop

theorem modeAbove_append (above below : List Line) :
    modeAbove (above ++ below) above.length = lastMode above := by
  rcases List.eq_nil_or_concat above with rfl | ⟨init, l, rfl⟩
  · rfl
  · simp [modeAbove, lastMode]

theorem lastMode_append (above : List Line) {ls : List Line} (h : ls ≠ []) :
    lastMode (above ++ ls) = lastMode ls := by
  obtain ⟨l, hl⟩ := Option.ne_none_iff_exists'.1 (mt List.getLast?_eq_none_iff.1 h)
  simp [lastMode, List.getLast?_append, hl]

/-- Only marks on the rows of the pass matter. -/
theorem rescan_congr {q q' : List Nat} {row : Nat} {mode : Mode} {fresh : Bool} {ls : List Line}
    (h : ∀ x, row ≤ x → x < row + ls.length → (x ∈ q ↔ x ∈ q')) :
    rescan q row mode fresh ls = rescan q' row mode fresh ls := by
  induction ls generalizing row mode fresh with
  | nil => rfl
  | cons l ls ih =>
    rw [List.length_cons] at h
    have hrow : row ∈ q ↔ row ∈ q' := h row (Nat.le_refl _) (by omega)
    have hrest : ∀ mode fresh,
        rescan q (row + 1) mode fresh ls = rescan q' (row + 1) mode fresh ls :=
      fun mode fresh => ih fun x hx hlt => h x (by omega) (by omega)
    simp only [rescan, hrow, hrest]

/-- Rows without a mark stay as they are. -/
theorem rescan_clean {q : List Nat} {above kept : List Line} (rest : List Line)
    (h : ∀ x ∈ q, above.length ≤ x → (above ++ kept).length ≤ x) :
    rescan q above.length (lastMode above) false (kept ++ rest) =
      (kept ++ (rescan q (above ++ kept).length (lastMode (above ++ kept)) false rest).1,
        (rescan q (above ++ kept).length (lastMode (above ++ kept)) false rest).2) := by
  induction kept generalizing above with
  | nil => simp
  | cons l kept ih =>
    have hrow : above.length ∉ q := by
      intro hx
      have := h above.length hx (Nat.le_refl _)
      simp only [List.length_append, List.length_cons] at this
      omega
    have hlast : lastMode (above ++ [l]) = l.stop := by simp [lastMode]
    have hrest := @ih (above ++ [l]) (fun x hx hle => by
      have := h x hx (by simp at hle; omega)
      simpa using this)
    simp only [List.append_assoc, List.singleton_append, hlast, List.length_append,
      List.length_singleton] at hrest
    simp [rescan, hrow, hrest]

/-- A row that has to be scanned comes first among the rows scanned. -/
theorem rescan_scan {q : List Nat} {row : Nat} {mode : Mode} {fresh : Bool} {l : Line}
    (ls : List Line) (h : row ∈ q ∨ fresh = true ∧ l.start ≠ mode) :
    rescan q row mode fresh (l :: ls) =
      (Line.scan l.text mode :: (rescan q (row + 1) (Line.scan l.text mode).stop true ls).1,
        row :: (rescan q (row + 1) (Line.scan l.text mode).stop true ls).2) := by
  rw [rescan, if_pos h]

/-- Where a row agrees with the one above, it does not matter whether that one was scanned. -/
theorem rescan_fresh {q : List Nat} {row : Nat} {mode : Mode} {l : Line} (ls : List Line)
    (h : l.start = mode) :
    rescan q row mode true (l :: ls) = rescan q row mode false (l :: ls) := by
  simp only [rescan, h, ne_eq, not_true_eq_false, and_false, Bool.false_eq_true]

/-! ## A run -/

/-- The pass behind a run that made `done` of the rows below `above` and left `tail`. -/
def Pass.behind (p : Pass) (above done tail : List Line) : Pass where
  lines := above ++ done ++ tail
  seen := (List.range' above.length done.length).reverse ++ p.seen
  changed := (List.range' above.length done.length).foldl (fun rs r => insertRow r rs) p.changed

/-- What a run from a row does, in the terms of one pass. -/
structure RunsDown (above : List Line) (l : Line) (rest : List Line) (mode : Mode) (p : Pass)
    (done tail : List Line) : Prop where
  done_ne_nil : done ≠ []
  length_eq : done.length + tail.length = rest.length + 1
  cascade_eq : p.cascade above.length mode =
    some (p.behind above done tail, above.length + done.length)
  rescan_eq : ∀ q fresh, above.length ∈ q ∨ fresh = true ∧ l.start ≠ mode →
    rescan q above.length mode fresh (l :: rest) =
      (done ++ (rescan q (above.length + done.length) (lastMode done) false tail).1,
        List.range' above.length done.length ++
          (rescan q (above.length + done.length) (lastMode done) false tail).2)

theorem cascade_append (above : List Line) (l : Line) (rest : List Line) (mode : Mode)
    (seen changed : List Nat) :
    Pass.cascade ⟨above ++ l :: rest, seen, changed⟩ above.length mode =
      match rest with
      | [] => some (⟨above ++ [Line.scan l.text mode], above.length :: seen,
          insertRow above.length changed⟩, above.length + 1)
      | below :: rest =>
        if below.start ≠ (Line.scan l.text mode).stop then
          Pass.cascade ⟨(above ++ [Line.scan l.text mode]) ++ below :: rest, above.length :: seen,
            insertRow above.length changed⟩ (above.length + 1) (Line.scan l.text mode).stop
        else
          some (⟨above ++ Line.scan l.text mode :: below :: rest, above.length :: seen,
            insertRow above.length changed⟩, above.length + 1) := by
  rw [Pass.cascade]
  cases rest with
  | nil => simp
  | cons below rest => simp

theorem exists_run (above : List Line) (l : Line) (rest : List Line) (mode : Mode) {p : Pass}
    (hp : p.lines = above ++ l :: rest) : ∃ done tail, RunsDown above l rest mode p done tail := by
  obtain ⟨lines, seen, changed⟩ := p
  obtain rfl : lines = above ++ l :: rest := hp
  induction rest generalizing above l mode seen changed with
  | nil =>
    refine ⟨[Line.scan l.text mode], [], by simp, rfl, ?_, fun q fresh hscan => ?_⟩
    · simp [cascade_append, Pass.behind]
    · rw [rescan_scan [] hscan]
      rfl
  | cons below rest ih =>
    by_cases hstart : below.start = (Line.scan l.text mode).stop
    · refine ⟨[Line.scan l.text mode], below :: rest, by simp, by simp [Nat.add_comm], ?_,
        fun q fresh hscan => ?_⟩
      · simp [cascade_append, hstart, Pass.behind]
      · rw [rescan_scan _ hscan, rescan_fresh rest hstart]
        rfl
    · obtain ⟨done, tail, hrun⟩ := ih (above ++ [Line.scan l.text mode]) below
        (Line.scan l.text mode).stop (above.length :: seen) (insertRow above.length changed)
      have hlength : (above ++ [Line.scan l.text mode]).length = above.length + 1 := by simp
      refine ⟨Line.scan l.text mode :: done, tail, by simp, ?_, ?_, fun q fresh hscan => ?_⟩
      · have := hrun.length_eq
        simp only [List.length_cons]
        omega
      · have hcascade := hrun.cascade_eq
        rw [hlength] at hcascade
        simp only [cascade_append, ne_eq, hstart, not_false_eq_true, ↓reduceIte, hcascade]
        simp [Pass.behind, List.range'_succ, Nat.add_comm, Nat.add_left_comm]
      · have hrest := hrun.rescan_eq q true (Or.inr ⟨rfl, hstart⟩)
        rw [hlength] at hrest
        have hlast : lastMode (Line.scan l.text mode :: done) = lastMode done :=
          lastMode_append [Line.scan l.text mode] hrun.done_ne_nil
        have hplace : above.length + (done.length + 1) = above.length + 1 + done.length := by omega
        rw [rescan_scan _ hscan, hrest, List.length_cons, hlast, hplace, List.range'_succ]
        rfl

/-! ## All runs -/

/-- The marked rows that are left, from the top down. Those above the place of the pass were met on
the way, the others were not. -/
structure Queued (queue : List Nat) (row : Nat) (p : Pass) : Prop where
  sorted : queue.Pairwise (· ≤ ·)
  above : ∀ x ∈ queue, x < row → x ∈ p.seen
  below : ∀ x ∈ queue, row ≤ x → x ∉ p.seen

theorem Queued.tail {x row : Nat} {queue : List Nat} {p : Pass} (h : Queued (x :: queue) row p) :
    Queued queue row p where
  sorted := h.sorted.tail
  above y hy := h.above y (List.mem_cons_of_mem x hy)
  below y hy := h.below y (List.mem_cons_of_mem x hy)

theorem Queued.pass {row row' : Nat} {queue : List Nat} {p : Pass} (h : Queued queue row p)
    (hle : row ≤ row') (hclean : ∀ x ∈ queue, row ≤ x → row' ≤ x) : Queued queue row' p where
  sorted := h.sorted
  above x hx hlt := h.above x hx (Nat.lt_of_not_le fun hrow => by
    have := hclean x hx hrow
    omega)
  below x hx hge := h.below x hx (Nat.le_trans hle hge)

/-- Behind a run, the rows of the run have been met. -/
theorem Queued.run {queue : List Nat} {p : Pass} {above : List Line}
    (h : Queued (above.length :: queue) above.length p) (done tail : List Line) :
    Queued queue (above ++ done).length (p.behind above done tail) where
  sorted := h.sorted.tail
  above x hx hlt := by
    have hge : above.length ≤ x := (List.pairwise_cons.1 h.sorted).1 x hx
    rw [List.length_append] at hlt
    exact List.mem_append_left _ (List.mem_reverse.2 (List.mem_range'_1.2 ⟨hge, hlt⟩))
  below x hx hge hseen := by
    rw [List.length_append] at hge
    rcases List.mem_append.1 hseen with hrun | hold
    · have := List.mem_range'_1.1 (List.mem_reverse.1 hrun)
      omega
    · exact h.below x (List.mem_cons_of_mem _ hx) (by omega) hold

/-- A row that is not worked off has nothing to do with the rows that are left. -/
theorem rescan_skip {x row : Nat} {queue : List Nat} {mode : Mode} {fresh : Bool} {ls : List Line}
    (h : x < row ∨ row + ls.length ≤ x) :
    rescan (x :: queue) row mode fresh ls = rescan queue row mode fresh ls := by
  refine rescan_congr fun y hle hlt => ?_
  have hne : y ≠ x := by omega
  simp [hne]

/-- Runs that follow each other downwards from a row on, none of them empty. -/
def Ascends (row : Nat) : List Run → Prop
  | [] => True
  | r :: runs => row ≤ r.first ∧ 0 < r.count ∧ Ascends (r.first + r.count) runs

theorem Ascends.mono {row row' : Nat} {runs : List Run} (h : Ascends row runs) (hle : row' ≤ row) :
    Ascends row' runs := by
  cases runs with
  | nil => trivial
  | cons r runs => exact ⟨Nat.le_trans hle h.1, h.2⟩

structure RunsOff (queue : List Nat) (above below : List Line) (p : Pass) (runs : List Run) :
    Prop where
  workOff_eq : workOff p queue =
    some (⟨above ++ (rescan queue above.length (lastMode above) false below).1,
      (runs.flatMap Run.rows).reverse ++ p.seen,
      (runs.flatMap Run.rows).foldl (fun rs r => insertRow r rs) p.changed⟩, runs)
  rescan_eq : (rescan queue above.length (lastMode above) false below).2 = runs.flatMap Run.rows
  ascends : Ascends above.length runs
  first_mem : ∀ r ∈ runs, r.first ∈ queue

theorem runsOff_nil {above below : List Line} {p : Pass} (hp : p.lines = above ++ below) :
    RunsOff [] above below p [] where
  workOff_eq := by
    rw [rescan_nil, ← hp]
    rfl
  rescan_eq := by rw [rescan_nil, List.flatMap_nil]
  ascends := trivial
  first_mem := by simp

/-- A row that a run came by already, or that there is not, starts none. -/
theorem RunsOff.skip {first : Nat} {queue : List Nat} {above below : List Line} {p : Pass}
    {runs : List Run} (h : RunsOff queue above below p runs)
    (hseen : first ∈ p.seen ∨ p.lines.length ≤ first)
    (hplace : first < above.length ∨ above.length + below.length ≤ first) :
    RunsOff (first :: queue) above below p runs where
  workOff_eq := by rw [workOff, if_pos hseen, h.workOff_eq, rescan_skip hplace]
  rescan_eq := by rw [rescan_skip hplace, h.rescan_eq]
  ascends := h.ascends
  first_mem r hr := List.mem_cons_of_mem first (h.first_mem r hr)

/-- Lines without a mark in front are passed by. -/
theorem RunsOff.pass {queue : List Nat} {above kept below : List Line} {p : Pass}
    {runs : List Run} (h : RunsOff queue (above ++ kept) below p runs)
    (hclean : ∀ x ∈ queue, above.length ≤ x → (above ++ kept).length ≤ x) :
    RunsOff queue above (kept ++ below) p runs where
  workOff_eq := by rw [h.workOff_eq, rescan_clean below hclean, List.append_assoc]
  rescan_eq := by rw [rescan_clean below hclean, h.rescan_eq]
  ascends := h.ascends.mono (by simp)
  first_mem := h.first_mem

/-- The first row below the place of the pass starts a run. The run ends above a row that agrees
with it, so the pass goes on as from a clean start. -/
theorem RunsOff.run {queue : List Nat} {above : List Line} {l : Line} {rest : List Line} {p : Pass}
    {done tail : List Line} {runs : List Run}
    (h : RunsOff queue (above ++ done) tail (p.behind above done tail) runs)
    (hrun : RunsDown above l rest (lastMode above) p done tail)
    (hp : p.lines = above ++ l :: rest) (hnew : above.length ∉ p.seen) :
    RunsOff (above.length :: queue) above (l :: rest) p (⟨above.length, done.length⟩ :: runs) := by
  have hpos := List.length_pos_iff.2 hrun.done_ne_nil
  have hlast : lastMode (above ++ done) = lastMode done := lastMode_append above hrun.done_ne_nil
  have hpass : rescan (above.length :: queue) above.length (lastMode above) false (l :: rest) =
      (done ++ (rescan queue (above ++ done).length (lastMode (above ++ done)) false tail).1,
        List.range' above.length done.length ++
          (rescan queue (above ++ done).length (lastMode (above ++ done)) false tail).2) := by
    rw [hrun.rescan_eq _ _ (Or.inl List.mem_cons_self), ← List.length_append, hlast,
      rescan_skip (Or.inl (by rw [List.length_append]; omega))]
  constructor
  · have hmode : modeAbove p.lines above.length = lastMode above := hp ▸ modeAbove_append ..
    have hlength : ¬p.lines.length ≤ above.length := by simp [hp]
    rw [workOff, if_neg (by simp [hnew, hlength]), hmode, hrun.cascade_eq]
    simp only [Option.bind_eq_bind, Option.bind_some, sub_of_le (Nat.le_add_right above.length _),
      Nat.add_sub_cancel_left, h.workOff_eq, hpass]
    simp [Pass.behind, Run.rows]
  · rw [hpass, h.rescan_eq]
    rfl
  · exact ⟨Nat.le_refl _, hpos, h.ascends.mono (by simp)⟩
  · intro r hr
    rcases List.mem_cons.1 hr with rfl | hr
    · exact List.mem_cons_self
    · exact List.mem_cons_of_mem _ (h.first_mem r hr)

theorem exists_runs {queue : List Nat} {above below : List Line} {p : Pass}
    (hp : p.lines = above ++ below) (h : Queued queue above.length p) :
    ∃ runs, RunsOff queue above below p runs := by
  induction queue generalizing above below p with
  | nil => exact ⟨[], runsOff_nil hp⟩
  | cons first queue ih =>
    have hsorted := List.pairwise_cons.1 h.sorted
    by_cases hskip : first < above.length ∨ above.length + below.length ≤ first
    · obtain ⟨runs, hruns⟩ := ih hp h.tail
      refine ⟨runs, hruns.skip ?_ hskip⟩
      rw [hp, List.length_append]
      exact hskip.imp_left (h.above first List.mem_cons_self)
    · obtain ⟨kept, l, rest, rfl, hfirst⟩ : ∃ kept l rest,
          below = kept ++ l :: rest ∧ first = (above ++ kept).length := by
        have hlt : first - above.length < below.length := by omega
        refine ⟨below.take (first - above.length), below[first - above.length],
          below.drop (first - above.length + 1), ?_, ?_⟩
        · rw [← List.drop_eq_getElem_cons hlt, List.take_append_drop]
        · simp only [List.length_append, List.length_take]
          omega
      have hclean : ∀ x ∈ first :: queue, above.length ≤ x → (above ++ kept).length ≤ x := by
        intro x hx _
        rcases List.mem_cons.1 hx with rfl | hx
        · exact Nat.le_of_eq hfirst.symm
        · exact hfirst ▸ hsorted.1 x hx
      have hqueued := h.pass (by simp) hclean
      have hlines : p.lines = (above ++ kept) ++ l :: rest := by rw [hp, List.append_assoc]
      subst hfirst
      obtain ⟨done, tail, hrun⟩ :=
        exists_run (above ++ kept) l rest (lastMode (above ++ kept)) hlines
      have hnew : (above ++ kept).length ∉ p.seen :=
        hqueued.below _ List.mem_cons_self (Nat.le_refl _)
      obtain ⟨runs, hruns⟩ := ih (p := p.behind (above ++ kept) done tail) rfl
        (hqueued.run done tail)
      exact ⟨_, (hruns.run hrun hlines hnew).pass hclean⟩

/-- A flush works off its queue row by row. -/
theorem foldlM_scanRow (p : Pass) (queue : List Nat) :
    queue.foldlM scanRow p = (workOff p queue).map Prod.fst := by
  induction queue generalizing p with
  | nil => rfl
  | cons first queue ih =>
    rw [List.foldlM_cons, scanRow, workOff]
    split
    · exact ih p
    · simp only [Option.bind_eq_bind, Option.bind_assoc, Option.map_bind, Function.comp_def]
      refine Option.bind_congr fun (q, stop) _ => Option.bind_congr fun count hcount => ?_
      have hlast : 1 < count → sub stop 1 = some (stop - 1) := by
        intro hlt
        simp only [sub, Option.ite_none_right_eq_some, Option.some.injEq] at hcount
        exact sub_of_le (by omega)
      have hreport :
          (if 1 < count then (sub stop 1).bind fun _ => pure q else pure q) = some q := by
        split
        · rename_i hlt
          rw [hlast hlt]
          rfl
        · rfl
      rw [hreport, Option.bind_some, ih q, Option.map_eq_bind]
      rfl

/-! ## Flushing -/

/-- The order of the marks does not matter. -/
theorem rescan_mergeSort (dirty : List Nat) (row : Nat) (mode : Mode) (fresh : Bool)
    (ls : List Line) :
    rescan (dirty.mergeSort (fun r s => r ≤ s)) row mode fresh ls =
      rescan dirty row mode fresh ls :=
  rescan_congr fun _ _ _ => List.mem_mergeSort

/-- Working off all marks in order, with no row met before, leads to the flushed buffer. -/
theorem exists_runs_flush (b : Buffer) :
    ∃ runs,
      workOff ⟨b.lines, [], b.changes.changed⟩ (b.dirty.mergeSort (fun r s => r ≤ s)) =
        some (⟨b.flush.lines, (runs.flatMap Run.rows).reverse, b.flush.changes.changed⟩, runs) ∧
      (rescan b.dirty 0 .code false b.lines).2 = runs.flatMap Run.rows ∧
      Ascends 0 runs ∧ ∀ r ∈ runs, r.first ∈ b.dirty := by
  have hsorted := @List.pairwise_mergeSort _ (fun r s : Nat => decide (r ≤ s))
    (by simpa using fun a b c => Nat.le_trans) (by simpa using Nat.le_total) b.dirty
  have hqueued : Queued (b.dirty.mergeSort (fun r s => r ≤ s)) ([] : List Line).length
      ⟨b.lines, [], b.changes.changed⟩ :=
    ⟨by simpa using hsorted, fun x _ hlt => absurd hlt (Nat.not_lt_zero x),
      fun _ _ _ => List.not_mem_nil⟩
  obtain ⟨runs, hruns⟩ := exists_runs (List.nil_append b.lines).symm hqueued
  have hrows : (rescan b.dirty 0 .code false b.lines).2 = runs.flatMap Run.rows := by
    rw [← hruns.rescan_eq, rescan_mergeSort]
    rfl
  refine ⟨runs, ?_, hrows, hruns.ascends, fun r hr => List.mem_mergeSort.1 (hruns.first_mem r hr)⟩
  rw [hruns.workOff_eq, rescan_mergeSort, List.append_nil, ← hrows]
  rfl

@[simp] theorem flush_eq (b : Buffer) : flush b = some b.flush := by
  unfold flush
  split
  · rename_i hclean
    rw [Buffer.flush_of_clean hclean]
  · obtain ⟨runs, hwork, _⟩ := exists_runs_flush b
    rw [foldlM_scanRow, hwork]
    exact dif_pos b.flush.lines_ne_nil

end Checked
end StructEdit
