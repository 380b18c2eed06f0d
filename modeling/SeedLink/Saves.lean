import SeedLink.Recovery
import SeedLink.StateRoundTrip

/-!
# A save on disk (`state.save_state`)

The save step by step, on the files of a disk and with whatever the steps raise: the temporary file is made,
opened and written, and renamed at the end or removed. `wp_saveState` connects it to `saveState`: the streams end
up the same, the target gets that text or is left as it is. So the text is written whole or not at all
(`saveState_atomic`).
-/

namespace SeedLink

open StateExc

/-! ### The disk -/

/-- A file: its text and its permission bits. -/
structure FileEntry where
  content : Text
  mode : Nat

abbrev Files := Text → Option FileEntry

/-- The steps of a save that can go wrong. -/
inductive SaveStep
  | mkstemp
  | chmod
  | fdopen
  | header
  | line (i : Nat)
  | close
  | replace
  | remove
  deriving DecidableEq

/-- What a save meets: the name that `mkstemp` chooses, the umask, the exception that each step raises, and how
much of a text that cannot be written whole gets into the file. -/
structure Disk where
  tmpPath : Text
  umask : Nat
  faults : SaveStep → Option Exn
  torn : SaveStep → Nat

/-- `0o666 & ~umask`. -/
def Disk.mode (d : Disk) : Nat := 0o666 ^^^ (0o666 &&& d.umask)

structure Saving where
  files : Files
  streams : List Stream

abbrev SaveM := EStateM Exn Saving

namespace Saving

/-! ### The steps -/

section steps
variable (d : Disk)

def step (s : SaveStep) : SaveM Unit :=
  match d.faults s with
  | none => pure ⟨⟩
  | some e => throw e

/-- What becomes of the temporary file. -/
def changeTmp (f : Option FileEntry → Option FileEntry) : SaveM Unit :=
  modify fun st => { st with files := Function.update st.files d.tmpPath (f (st.files d.tmpPath)) }

def mkstemp : SaveM Unit := do
  step d .mkstemp
  changeTmp d fun _ => some ⟨[], 0o600⟩

def chmod : SaveM Unit := do
  step d .chmod
  changeTmp d fun file => file.map fun file => { file with mode := d.mode }

def append (text : Text) : SaveM Unit :=
  changeTmp d fun file => file.map fun file => { file with content := file.content ++ text }

/-- `f.write(text)`. -/
def write (s : SaveStep) (text : Text) : SaveM Unit :=
  match d.faults s with
  | none => append d text
  | some e => do
    append d (text.take (d.torn s))
    throw e

/-- `os.replace(tmp_path, path)`. -/
def replace (path : Text) : SaveM Unit := do
  step d .replace
  modify fun st =>
    { st with files := fun p =>
        if p = path then st.files d.tmpPath else if p = d.tmpPath then none else st.files p }

def remove : SaveM Unit := do
  step d .remove
  changeTmp d fun _ => none

/-- `with os.fdopen(fd, "w"): ...`. -/
def withFile (body : SaveM Unit) : SaveM Unit := do
  step d .fdopen
  tryCatch body fun e => do
    step d .close
    throw e
  step d .close

variable [Pymseed]

/-- The loop of `save_state`, from stream `i` on. -/
def writeStreams : Nat → List Stream → SaveM Unit
  | _, [] => pure ⟨⟩
  | i, s :: rest =>
    match sequenceText s.seqnum with
    | .error e => throw e
    | .ok seq => do
      modify fun st => { st with streams := st.streams.modify i Stream.resolveTimestamp }
      let s := s.resolveTimestamp
      write d (.line i) (stateLine s.stationId seq s.timestamp)
      writeStreams (i + 1) rest

/-- `save_state`. -/
def saveState (path : Text) : SaveM Unit := do
  mkstemp d
  tryCatch
    (do
      chmod d
      withFile d do
        write d .header (headerV2 ++ ['\n'])
        writeStreams d 0 (← get).streams
      replace d path)
    fun e => do
      tryCatch (remove d) fun e' => if e'.isOSError then pure ⟨⟩ else throw e'
      throw e

end steps

/-! ### What they do -/

section rules
variable {d : Disk} {Q : Unit → Saving → Prop} {E : Exn → Saving → Prop} {st : Saving}

theorem wp_step {s : SaveStep} (hQ : d.faults s = none → Q ⟨⟩ st) (hE : ∀ e, d.faults s = some e → E e st) :
    wp (step d s) Q E st := by
  unfold step
  cases h : d.faults s with
  | none => exact hQ h
  | some e => exact hE e h

/-- The files of the start, but for the temporary one. -/
def But (d : Disk) (files : Files) (file : Option FileEntry) (st : Saving) : Prop :=
  st.files = Function.update files d.tmpPath file

variable {files : Files} {file : Option FileEntry} {content text : Text} {mode : Nat}

theorem But.changeTmp (h : But d files file st) (f : Option FileEntry → Option FileEntry) :
    But d files (f file) { st with files := Function.update st.files d.tmpPath (f (st.files d.tmpPath)) } := by
  unfold But at h ⊢
  simp only [h, Function.update_self, Function.update_idem]

theorem wp_write {s : SaveStep} (h : But d files (some ⟨content, mode⟩) st)
    (hQ : ∀ st', d.faults s = none → But d files (some ⟨content ++ text, mode⟩) st' → st'.streams = st.streams →
      Q ⟨⟩ st')
    (hE : ∀ e file st', d.faults s = some e → But d files file st' → st'.streams = st.streams → E e st') :
    wp (write d s text) Q E st := by
  unfold write append Saving.changeTmp
  cases hf : d.faults s with
  | none => exact hQ _ hf (h.changeTmp _) rfl
  | some e => exact hE e _ _ hf (h.changeTmp _) rfl

/-- The steps as `saveState` counts them, for `n` streams. -/
def faultsOf (d : Disk) (n : Nat) : Faults := fun i =>
  if i = 0 then (d.faults .mkstemp).or ((d.faults .chmod).or ((d.faults .fdopen).or (d.faults .header)))
  else if i ≤ n then d.faults (.line (i - 1))
  else (d.faults .close).or (d.faults .replace)

theorem faultsOf_line (d : Disk) {n j : Nat} (h : j < n) : faultsOf d n (1 + j) = d.faults (.line (0 + j)) := by
  unfold faultsOf
  rw [if_neg (by omega), if_pos (by omega), Nat.add_sub_cancel_left, Nat.zero_add]

theorem faultsOf_last (d : Disk) (n : Nat) : faultsOf d n (n + 1) = (d.faults .close).or (d.faults .replace) := by
  unfold faultsOf
  rw [if_neg (by omega), if_neg (by omega)]

section lines
variable [Pymseed] {faults : Faults} {n : Nat}

/-- The loop writes what `stateLines` says, and leaves the streams as it says. -/
theorem wp_writeStreams : ∀ (rest : List Stream) (i n : Nat) (done : List Stream) (content : Text) (st : Saving),
    st.streams = done ++ rest → done.length = i → (∀ j < rest.length, faults (n + j) = d.faults (.line (i + j))) →
    But d files (some ⟨content, mode⟩) st →
    wp (writeStreams d i rest)
      (fun _ st' => ∃ text, (stateLines faults n rest).1 = .ok text ∧
        st'.streams = done ++ (stateLines faults n rest).2 ∧ But d files (some ⟨content ++ text, mode⟩) st')
      (fun e st' => (stateLines faults n rest).1 = .error e ∧ st'.streams = done ++ (stateLines faults n rest).2 ∧
        ∃ file, But d files file st') st
  | [], i, n, done, content, st, hst, _, _, hbut => by
    exact ⟨[], rfl, hst, by rwa [List.append_nil]⟩
  | s :: rest, i, n, done, content, st, hst, hi, hfaults, hbut => by
    unfold writeStreams stateLines
    cases hseq : sequenceText s.seqnum with
    | error e => exact ⟨rfl, hst, _, hbut⟩
    | ok seq =>
      have hresolved : st.streams.modify i Stream.resolveTimestamp = done ++ s.resolveTimestamp :: rest := by
        rw [hst, ← hi, List.modify_eq_set_getElem?]
        simp
      have hfault : faults n = d.faults (.line i) := hfaults 0 (by simp)
      simp only [wp_bind, wp_modify]
      refine wp_write hbut (fun st₁ hnone hbut₁ hst₁ => ?_) fun e file st₁ hsome hbut₁ hst₁ => ?_
      · have hnone' : faults n = none := hfault.trans hnone
        have hst₁' : st₁.streams = (done ++ [s.resolveTimestamp]) ++ rest := by
          rw [hst₁]
          simpa using hresolved
        have hrec := wp_writeStreams rest (i + 1) (n + 1) (done ++ [s.resolveTimestamp]) _ st₁ hst₁' (by simp [hi])
          (fun j hj => by
            rw [Nat.add_right_comm n, Nat.add_right_comm i]
            exact hfaults (j + 1) (by simpa using hj)) hbut₁
        refine wp_mono hrec ?_ ?_
        · rintro _ st₂ ⟨text, hok, hstreams, hbut₂⟩
          simp only [hnone', hok]
          exact ⟨_, rfl, by simpa using hstreams, by rwa [← List.append_assoc]⟩
        · rintro e st₂ ⟨herr, hstreams, hbut₂⟩
          simp only [hnone', herr]
          exact ⟨rfl, by simpa using hstreams, hbut₂⟩
      · have hsome' : faults n = some e := hfault.trans hsome
        simp only [hsome']
        exact ⟨trivial, hst₁.trans hresolved, file, hbut₁⟩

/-- The save has gone wrong where `SeedLink.saveState` goes wrong; the temporary file may still be there. -/
def Failed (d : Disk) (st st' : Saving) : Prop :=
  (∃ e, (SeedLink.saveState (faultsOf d st.streams.length) st.streams).1 = .error e) ∧
    st'.streams = (SeedLink.saveState (faultsOf d st.streams.length) st.streams).2 ∧ ∃ file, But d st.files file st'

/-- It has written the text of `SeedLink.saveState` to the temporary file. -/
def Written (d : Disk) (st st' : Saving) : Prop :=
  ∃ text, (SeedLink.saveState (faultsOf d st.streams.length) st.streams).1 = .ok text ∧
    st'.streams = (SeedLink.saveState (faultsOf d st.streams.length) st.streams).2 ∧
    But d st.files (some ⟨text, d.mode⟩) st'

section outcomes
variable {st' : Saving} {e : Exn}

theorem failed_first (h : (faultsOf d st.streams.length 0).isSome = true) (hst : st'.streams = st.streams)
    (hbut : But d st.files file st') : Failed d st st' := by
  obtain ⟨e, he⟩ := Option.isSome_iff_exists.1 h
  unfold Failed SeedLink.saveState
  rw [he]
  exact ⟨⟨e, rfl⟩, hst, file, hbut⟩

variable (h : faultsOf d st.streams.length 0 = none)
include h

theorem failed_lines (hlines : (stateLines (faultsOf d st.streams.length) 1 st.streams).1 = .error e)
    (hst : st'.streams = (stateLines (faultsOf d st.streams.length) 1 st.streams).2)
    (hbut : But d st.files file st') : Failed d st st' := by
  unfold Failed SeedLink.saveState
  simp only [h, hlines]
  split <;> exact ⟨⟨_, rfl⟩, hst, file, hbut⟩

theorem failed_last (hlast : (faultsOf d st.streams.length (st.streams.length + 1)).isSome = true)
    (hlines : (stateLines (faultsOf d st.streams.length) 1 st.streams).1 = .ok text)
    (hst : st'.streams = (stateLines (faultsOf d st.streams.length) 1 st.streams).2)
    (hbut : But d st.files file st') : Failed d st st' := by
  obtain ⟨e, he⟩ := Option.isSome_iff_exists.1 hlast
  unfold Failed SeedLink.saveState
  simp only [h, he, hlines]
  exact ⟨⟨_, rfl⟩, hst, file, hbut⟩

theorem written (hlast : faultsOf d st.streams.length (st.streams.length + 1) = none)
    (hlines : (stateLines (faultsOf d st.streams.length) 1 st.streams).1 = .ok text)
    (hst : st'.streams = (stateLines (faultsOf d st.streams.length) 1 st.streams).2)
    (hbut : But d st.files (some ⟨headerV2 ++ '\n' :: text, d.mode⟩) st') : Written d st st' := by
  unfold Written SeedLink.saveState
  simp only [h, hlast, hlines]
  exact ⟨_, rfl, hst, hbut⟩

end outcomes

/-- The file is written and closed, in a `with` block, and renamed. -/
theorem wp_saveState_body {st₀ : Saving} (hmkstemp : d.faults .mkstemp = none) (hst : st.streams = st₀.streams)
    (hbut : But d st₀.files (some ⟨[], mode⟩) st) (path : Text) :
    wp (do
      chmod d
      withFile d do
        write d .header (headerV2 ++ ['\n'])
        writeStreams d 0 (← get).streams
      replace d path)
      (fun _ st' => ∃ st₁, Written d st₀ st₁ ∧ st'.streams = st₁.streams ∧ st'.files = fun p =>
        if p = path then st₁.files d.tmpPath else if p = d.tmpPath then none else st₁.files p)
      (fun _ st' => Failed d st₀ st') st := by
  simp only [chmod, withFile, replace, wp_bind, wp_tryCatch, wp_get]
  refine wp_step (fun hchmod => ?_) fun e hchmod => failed_first (by simp [faultsOf, hmkstemp, hchmod]) hst hbut
  have hbut₁ := hbut.changeTmp fun file => file.map fun file => { file with mode := d.mode }
  simp only [changeTmp, wp_modify]
  refine wp_step (fun hfdopen => ?_) fun e hfdopen =>
    failed_first (by simp [faultsOf, hmkstemp, hchmod, hfdopen]) hst hbut₁
  refine wp_write hbut₁ (fun st₂ hheader hbut₂ hst₂ => ?_) fun e file st₂ hheader hbut₂ hst₂ => ?_
  · have hfirst : faultsOf d st₀.streams.length 0 = none := by simp [faultsOf, hmkstemp, hchmod, hfdopen, hheader]
    have hst₂' : st₂.streams = st₀.streams := hst₂.trans hst
    have hlast := faultsOf_last d st₀.streams.length
    have hfaults : ∀ j < st₀.streams.length,
        faultsOf d st₀.streams.length (1 + j) = d.faults (.line (0 + j)) := fun j hj => faultsOf_line d hj
    have hlines := wp_writeStreams st₀.streams 0 1 [] _ st₂ hst₂' rfl hfaults hbut₂
    rw [hst₂']
    refine wp_mono hlines ?_ ?_
    · rintro _ st₃ ⟨text, hok, hst₃, hbut₃⟩
      refine wp_step (fun hclose => ?_) fun e hclose => failed_last hfirst (by rw [hlast, hclose]; rfl) hok hst₃ hbut₃
      refine wp_step (fun hreplace => ?_) fun e hreplace =>
        failed_last hfirst (by rw [hlast, hclose, hreplace]; rfl) hok hst₃ hbut₃
      refine ⟨st₃, written hfirst (by rw [hlast, hclose, hreplace]; rfl) hok hst₃ ?_, rfl, rfl⟩
      simpa using hbut₃
    · rintro e st₃ ⟨herr, hst₃, file, hbut₃⟩
      have hfailed := failed_lines hfirst herr hst₃ hbut₃
      exact wp_step (fun _ => hfailed) fun _ _ => hfailed
  · have hfailed : Failed d st₀ st₂ :=
      failed_first (by simp [faultsOf, hmkstemp, hchmod, hfdopen, hheader]) (hst₂.trans hst) hbut₂
    exact wp_step (fun _ => hfailed) fun _ _ => hfailed

/-- The handler takes the temporary file away, if it can. -/
theorem wp_removing {st₀ : Saving} {e : Exn} (h : Failed d st₀ st) :
    wp (do
      tryCatch (remove d) fun e' => if e'.isOSError then pure ⟨⟩ else throw e'
      throw e : SaveM Unit) (fun _ _ => False)
      (fun _ st' => Failed d st₀ st' ∧ (d.faults .remove = none → But d st₀.files none st')) st := by
  obtain ⟨herr, hst, file, hbut⟩ := h
  simp only [remove, changeTmp, wp_bind, wp_tryCatch, wp_modify, wp_throw]
  refine wp_step (fun hremove => ?_) fun e' hremove => ?_
  · exact ⟨⟨herr, hst, none, hbut.changeTmp fun _ => none⟩, fun _ => hbut.changeTmp fun _ => none⟩
  · have hfailed : Failed d st₀ st ∧ (d.faults .remove = none → But d st₀.files none st) :=
      ⟨⟨herr, hst, file, hbut⟩, fun hnone => by rw [hnone] at hremove; cases hremove⟩
    split <;> exact hfailed

/-- The save on disk does what `SeedLink.saveState` says, and its target changes at once or not at all. -/
theorem wp_saveState (hfresh : st.files d.tmpPath = none) (path : Text) :
    wp (saveState d path)
      (fun _ st' => ∃ st₁, Written d st st₁ ∧ st'.streams = st₁.streams ∧ st'.files = fun p =>
        if p = path then st₁.files d.tmpPath else if p = d.tmpPath then none else st₁.files p)
      (fun _ st' => Failed d st st' ∧ (d.faults .remove = none → But d st.files none st')) st := by
  have hnone : But d st.files none st := by
    unfold But
    rw [← hfresh, Function.update_eq_self]
  rw [saveState, wp_bind, mkstemp, wp_bind]
  refine wp_step (fun hmkstemp => ?_) fun e hmkstemp =>
    ⟨failed_first (by simp [faultsOf, hmkstemp]) rfl hnone, fun _ => hnone⟩
  rw [changeTmp, wp_modify, wp_tryCatch]
  have hbut := hnone.changeTmp fun _ => some ⟨[], 0o600⟩
  have hst : ({ st with files := Function.update st.files d.tmpPath (some ⟨[], 0o600⟩) } : Saving).streams =
      st.streams := rfl
  refine wp_mono (wp_saveState_body hmkstemp hst hbut path) (fun _ _ h => h) fun e st' h => ?_
  exact wp_mono (wp_removing h) (fun _ _ hfalse => hfalse.elim) fun _ _ h => h

end lines

end rules

end Saving

/-! ### All or nothing -/

section atomic
variable [Pymseed] {d : Disk} {st : Saving}

/-- However the save ends, the target has all of the text or what it had before, and every position of a stream
is as it was. -/
theorem saveState_atomic (hfresh : st.files d.tmpPath = none) (path : Text) :
    (∀ e st', Saving.saveState d path st = .error e st' →
      (path ≠ d.tmpPath → st'.files path = st.files path) ∧ (d.faults .remove = none → st'.files = st.files) ∧
        List.Forall₂ (fun s s' => s'.stationId = s.stationId ∧ s'.position = s.position) st.streams st'.streams) ∧
    ∀ st', Saving.saveState d path st = .ok ⟨⟩ st' →
      ∃ lines, st'.files = Function.update st.files path (some ⟨headerV2 ++ '\n' :: lines.flatten, d.mode⟩) ∧
        List.Forall₂ (fun s line => ∃ seq, sequenceText s.seqnum = .ok seq ∧
          line = stateLine s.stationId seq s.position.2) st.streams lines := by
  have hwp := Saving.wp_saveState hfresh path
  refine ⟨fun e st' hrun => ?_, fun st' hrun => ?_⟩
  · obtain ⟨⟨-, hstreams, file, hbut⟩, hremoved⟩ := wp_error hwp hrun
    refine ⟨fun hne => ?_, fun hnone => ?_, ?_⟩
    · rw [hbut, Function.update_of_ne hne]
    · rw [hremoved hnone, ← hfresh, Function.update_eq_self]
    · rw [hstreams]
      exact (resolves_saveState st.streams).imp fun s s' h => ⟨h.stationId, h.position⟩
  · obtain ⟨st₁, ⟨text, hok, -, hbut⟩, -, hfiles⟩ := wp_ok hwp hrun
    obtain ⟨lines, rfl, hlines⟩ := saveState_ok hok
    refine ⟨lines, ?_, hlines⟩
    rw [hfiles]
    funext p
    unfold Saving.But at hbut
    by_cases hp : p = path
    · rw [if_pos hp, hp, Function.update_self, hbut, Function.update_self]
    · rw [if_neg hp, Function.update_of_ne hp, hbut]
      by_cases htmp : p = d.tmpPath
      · rw [if_pos htmp, htmp, hfresh]
      · rw [if_neg htmp, Function.update_of_ne htmp]

/-- Without faults a save returns, if every number can be printed. -/
theorem saveState_returns (hfresh : st.files d.tmpPath = none) (hfaults : ∀ s, d.faults s = none)
    (hprint : ∀ s ∈ st.streams, Printable s.seqnum) (path : Text) :
    ∃ st', Saving.saveState d path st = .ok ⟨⟩ st' := by
  have hnone : Saving.faultsOf d st.streams.length = noFaults := by
    funext n
    simp [Saving.faultsOf, hfaults, noFaults]
  obtain ⟨text, htext⟩ := saveState_noFaults hprint
  have hwp : wp (Saving.saveState d path) (fun _ _ => True) (fun _ _ => False) st := by
    refine wp_mono (Saving.wp_saveState hfresh path) (fun _ _ _ => trivial) ?_
    rintro e st' ⟨⟨⟨e', herr⟩, -⟩, -⟩
    rw [hnone, htext] at herr
    cases herr
  obtain ⟨_, st', hrun, -⟩ := wp_exists hwp
  exact ⟨st', hrun⟩

end atomic

/-- A disk on which writing the first line fails after three characters. -/
def fullDisk : Disk where
  tmpPath := ".tmp-a.state".toList
  umask := 0o022
  faults s := if s = .line 0 then some .osError else none
  torn _ := 3

/-- A state file, and a stream to save. -/
def oldState : Saving where
  files p := if p = "a.state".toList then some ⟨"old".toList, 0o644⟩ else none
  streams := [{ stationId := "IU_ANMO".toList, seqnum := some 7 }]

theorem saveState_atomic_fullDisk :
    (∃ e st', @Saving.saveState fullDisk .bare "a.state".toList oldState = .error e st' ∧
      st'.files = oldState.files) ∧
    ∃ st', @Saving.saveState { fullDisk with faults := fun _ => none } .bare "a.state".toList oldState = .ok ⟨⟩ st' ∧
      (st'.files "a.state".toList).isSome = true := by
  have hbad := @saveState_atomic .bare fullDisk oldState rfl "a.state".toList
  have hgood := @saveState_atomic .bare { fullDisk with faults := fun _ => none } oldState rfl "a.state".toList
  refine ⟨⟨_, _, rfl, (hbad.1 _ _ rfl).2.1 rfl⟩, ⟨_, rfl, ?_⟩⟩
  obtain ⟨lines, hfiles, -⟩ := hgood.2 _ rfl
  rw [hfiles, Function.update_self]
  rfl

end SeedLink
