import Numaflow.Lib.HashMap
import Numaflow.Lib.Run
import Numaflow.Lib.Text

/-!
# Side input files

A side input is read through a symbolic link.  An update writes the value to a new file,
makes a temporary link to it, renames this link to the one that is read, and removes the
file that was read before.  An update can fail or the process can crash between any two of
these steps and in the middle of the write, and the next update starts from the files that
are left.

Main results: `reads_latest`.
-/

namespace Numaflow.SideInput

open Lib

/-- What a path leads to. -/
inductive Entry where
  | file (content : List UInt8)
  | symlink (target : String)
deriving DecidableEq

/-- Read a file, also through a link. -/
def fetchSideInputFileValue (files : HashMap String Entry) (path : String) : Option (List UInt8) :=
  match files.lookup path with
  | none => none
  | some (.file content) => some content
  | some (.symlink target) =>
    match files.lookup target with
    | some (.file content) => some content
    | _ => none

def readLink (files : HashMap String Entry) (path : String) : Option String :=
  match files.lookup path with
  | some (.symlink target) => some target
  | _ => none

def newFileName (link : String) (timestamp : Nat) : String :=
  link ++ "_" ++ toString timestamp

def symlinkPathTmp (link : String) (timestamp : Nat) : String :=
  link ++ "_temp_" ++ toString timestamp

/-- The next step of an update. -/
inductive UpdatePhase where
  | idle
  | writing (timestamp : Nat) (value : List UInt8)
  | linking (timestamp : Nat) (value : List UInt8) (oldFilePath : Option String)
  | renaming (timestamp : Nat) (value : List UInt8) (oldFilePath : Option String)
  | removing (oldFilePath : Option String)

/-- What can happen.  A failure ends the update. -/
inductive UpdateAction where
  | update (timestamp : Nat) (value : List UInt8) (readable : Bool)
  | write (bytes : Nat)
  | written
  | symlink
  | rename
  | remove (removable : Bool)
  | fail

/-- The files, with the timestamps of all updates and the one that was renamed last. -/
structure UpdateRun where
  files : HashMap String Entry
  phase : UpdatePhase
  used : List Nat
  latest : Option (Nat × List UInt8)

namespace UpdateRun

def init : UpdateRun :=
  ⟨∅, .idle, [], none⟩

/-- The updates of the side input that is read through `link`. -/
def step (link : String) (s : UpdateRun) (action : UpdateAction) : UpdateRun :=
  match action, s.phase with
  | .update timestamp value readable, .idle =>
    if readable ∧ fetchSideInputFileValue s.files link = some value then
      { s with used := timestamp :: s.used }
    else { s with used := timestamp :: s.used, phase := .writing timestamp value }
  | .write bytes, .writing timestamp value =>
    { s with
      files := s.files.insert (newFileName link timestamp) (.file (value.take bytes)) }
  | .written, .writing timestamp value =>
    let files := s.files.insert (newFileName link timestamp) (.file value)
    { s with files := files, phase := .linking timestamp value (readLink files link) }
  | .symlink, .linking timestamp value old =>
    if symlinkPathTmp link timestamp ∈ s.files then { s with phase := .idle }
    else
      { s with
        files := s.files.insert (symlinkPathTmp link timestamp)
          (.symlink (newFileName link timestamp))
        phase := .renaming timestamp value old }
  | .rename, .renaming timestamp value old =>
    match s.files.lookup (symlinkPathTmp link timestamp) with
    | none => { s with phase := .idle }
    | some entry =>
      { s with
        files := (s.files.erase (symlinkPathTmp link timestamp)).insert link entry
        phase := .removing old
        latest := some (timestamp, value) }
  | .remove removable, .removing old =>
    match old with
    | none => { s with phase := .idle }
    | some path =>
      if removable ∧ (fetchSideInputFileValue s.files path).isSome then
        { s with files := s.files.erase path, phase := .idle }
      else { s with phase := .idle }
  | .fail, _ => { s with phase := .idle }
  | _, _ => s

/-- No two updates have the same timestamp. -/
def Distinct (s : UpdateRun) : UpdateAction → Prop
  | .update timestamp _ _ => timestamp ∉ s.used
  | _ => True

instance (s : UpdateRun) : DecidablePred s.Distinct := fun _ => by
  unfold Distinct
  split <;> infer_instance

/-! ## Names -/

variable {link : String} {a b : Nat}

theorem newFileName_inj (h : newFileName link a = newFileName link b) : a = b := by
  have hlist := congrArg String.toList h
  simp only [newFileName, String.toList_append, toList_toString, List.append_cancel_left_eq]
    at hlist
  exact toDigits_inj hlist

theorem newFileName_ne : newFileName link a ≠ link := by
  simp [newFileName, String.append_assoc]

theorem symlinkPathTmp_ne : symlinkPathTmp link a ≠ link := by
  simp [symlinkPathTmp, String.append_assoc]

theorem symlinkPathTmp_ne_newFileName : symlinkPathTmp link a ≠ newFileName link b := by
  intro h
  have hlist := congrArg String.toList h
  simp [symlinkPathTmp, newFileName, Nat.repr] at hlist
  exact notMem_toDigits (c := 't') (by decide) b (hlist ▸ List.mem_cons_self)

/-! ## The invariant -/

/-- An update that has not been renamed. -/
def Pending (s : UpdateRun) (timestamp : Nat) : Prop :=
  timestamp ∈ s.used ∧ ∀ u ∈ s.latest, u.1 ≠ timestamp

/-- What the running update has done, and that the link does not lead to its file. -/
def Running (link : String) (s : UpdateRun) : Prop :=
  match s.phase with
  | .idle => True
  | .writing timestamp _ => s.Pending timestamp
  | .linking timestamp value old => s.Pending timestamp ∧
    s.files.lookup (newFileName link timestamp) = some (.file value) ∧
    old = s.latest.map fun u => newFileName link u.1
  | .renaming timestamp value old => s.Pending timestamp ∧
    s.files.lookup (newFileName link timestamp) = some (.file value) ∧
    (old = s.latest.map fun u => newFileName link u.1) ∧
    s.files.lookup (symlinkPathTmp link timestamp) = some (.symlink (newFileName link timestamp))
  | .removing old => ∃ u ∈ s.latest, ∀ path ∈ old, ∃ t, path = newFileName link t ∧ t ≠ u.1

/-- The link leads to the file of the last update. -/
structure Intact (link : String) (s : UpdateRun) : Prop where
  linked : s.files.lookup link = s.latest.map fun u => .symlink (newFileName link u.1)
  content : ∀ u ∈ s.latest, s.files.lookup (newFileName link u.1) = some (.file u.2)
  used : ∀ u ∈ s.latest, u.1 ∈ s.used
  running : Running link s

namespace Intact

variable {s : UpdateRun} (h : s.Intact link)

include h

variable {u : Nat × List UInt8} {path : String} {entry : Entry} {value : List UInt8} {t : Nat}
  {action : UpdateAction}

theorem reads (hu : u ∈ s.latest) : fetchSideInputFileValue s.files link = some u.2 := by
  have hlink := h.linked
  rw [Option.mem_def.mp hu] at hlink
  simp [fetchSideInputFileValue, hlink, h.content u hu]

/-- The running update writes to a path that the link does not lead to. -/
theorem insert {phase : UpdatePhase} (hlink : path ≠ link)
    (hfile : ∀ u ∈ s.latest, newFileName link u.1 ≠ path)
    (hrunning : Running link { s with files := s.files.insert path entry, phase := phase }) :
    Intact link { s with files := s.files.insert path entry, phase := phase } where
  linked := (AList.lookup_insert_ne hlink.symm).trans h.linked
  content u hu := (AList.lookup_insert_ne (hfile u hu)).trans (h.content u hu)
  used := h.used
  running := hrunning

/-- The running update ends. -/
theorem idle : Intact link { s with phase := .idle } :=
  ⟨h.linked, h.content, h.used, trivial⟩

omit h in
theorem rename {timestamp : Nat} (hpending : s.Pending timestamp)
    (hfile : s.files.lookup (newFileName link timestamp) = some (.file value)) :
    Intact link { s with
        files := (s.files.erase (symlinkPathTmp link timestamp)).insert link
          (.symlink (newFileName link timestamp))
        phase := .removing (s.latest.map fun u => newFileName link u.1)
        latest := some (timestamp, value) } := by
  refine ⟨AList.lookup_insert _, ?_, ?_, _, rfl, fun path hpath => ?_⟩
  · rintro u ⟨⟩
    rw [AList.lookup_insert_ne newFileName_ne,
      AList.lookup_erase_ne symlinkPathTmp_ne_newFileName.symm]
    exact hfile
  · rintro u ⟨⟩
    exact hpending.1
  · obtain ⟨u, hu, rfl⟩ := Option.map_eq_some_iff.mp hpath
    exact ⟨u.1, rfl, hpending.2 u hu⟩

theorem remove (hu : u ∈ s.latest) (ht : t ≠ u.1) : Intact link
    { s with files := s.files.erase (newFileName link t), phase := .idle } := by
  refine ⟨(AList.lookup_erase_ne newFileName_ne.symm).trans h.linked, fun u' hu' => ?_, h.used,
    trivial⟩
  cases Option.mem_unique hu hu'
  rw [AList.lookup_erase_ne fun heq => ht (newFileName_inj heq).symm]
  exact h.content u hu

/-- The link leads to the last update in every step. -/
theorem step (hok : s.Distinct action) : Intact link (s.step link action) := by
  have hrunning := h.running
  unfold Running at hrunning
  have hused : ∀ t, ∀ u ∈ s.latest, u.1 ∈ t :: s.used := fun _ u hu =>
    List.mem_cons_of_mem _ (h.used u hu)
  unfold UpdateRun.step
  split
  case h_1 timestamp value readable hphase =>
    split_ifs
    · exact ⟨h.linked, h.content, hused timestamp, by rw [Running, hphase]; trivial⟩
    · exact ⟨h.linked, h.content, hused timestamp, List.mem_cons_self,
        fun u hu heq => hok (heq ▸ h.used u hu)⟩
  case h_2 bytes timestamp value hphase =>
    rw [hphase] at hrunning
    exact h.insert newFileName_ne (fun u hu heq => hrunning.2 u hu (newFileName_inj heq))
      (by rw [Running, hphase]; exact hrunning)
  case h_3 timestamp value hphase =>
    rw [hphase] at hrunning
    refine h.insert newFileName_ne (fun u hu heq => hrunning.2 u hu (newFileName_inj heq))
      ⟨hrunning, AList.lookup_insert _, ?_⟩
    rw [readLink, AList.lookup_insert_ne newFileName_ne.symm, h.linked]
    cases s.latest <;> rfl
  case h_4 timestamp value old hphase =>
    rw [hphase] at hrunning
    obtain ⟨hpending, hfile, hold⟩ := hrunning
    split_ifs
    · exact h.idle
    · exact h.insert symlinkPathTmp_ne (fun u _ => symlinkPathTmp_ne_newFileName.symm)
        ⟨hpending, (AList.lookup_insert_ne symlinkPathTmp_ne_newFileName.symm).trans hfile, hold,
          AList.lookup_insert _⟩
  case h_5 timestamp value old hphase =>
    rw [hphase] at hrunning
    obtain ⟨hpending, hfile, rfl, htmp⟩ := hrunning
    rw [htmp]
    exact rename hpending hfile
  case h_6 removable old hphase =>
    rw [hphase] at hrunning
    obtain ⟨u, hu, hold⟩ := hrunning
    split
    · exact h.idle
    · obtain ⟨t, rfl, ht⟩ := hold _ rfl
      split_ifs
      · exact h.remove hu ht
      · exact h.idle
  case h_7 => exact h.idle
  case h_8 => exact h

end Intact

theorem intact_init : Intact link init :=
  ⟨rfl, nofun, nofun, trivial⟩

/-- The link leads to the value of the update that was renamed last, whatever fails. -/
theorem reads_latest (link : String) (actions : List UpdateAction)
    (hrun : Along Distinct (step link) init actions) :
    ∀ u ∈ (exec (step link) init actions).latest,
      fetchSideInputFileValue (exec (step link) init actions).files link = some u.2 := by
  have hintact : Intact link (exec (step link) init actions) :=
    exec_invariant (fun _ _ h hok => h.step hok) intact_init hrun
  exact fun u hu => hintact.reads hu

/-- The second update crashes in the middle of its write, the third one before it removes the
first file. -/
def crashes : List UpdateAction :=
  [.update 1 [7, 8] true, .written, .symlink, .rename, .remove true, .update 2 [9, 9] true,
    .write 1, .fail, .update 3 [5] true, .written, .symlink, .rename, .fail]

theorem reads_latest_crashes :
    fetchSideInputFileValue (exec (step "/side/in") init crashes).files "/side/in" = some [5] :=
  reads_latest "/side/in" crashes (by decide) (3, [5]) (by decide)

end UpdateRun
end Numaflow.SideInput
