import ClibDpa.Lib.Machine

/-!
# ClibDpa.Tracer

`iqrf::IqrfTracer`, which writes the traces of all threads to `std::cout` or to a file of limited
size. `start`, `stop` and `write` hold `m_mtx`, so each is one step. `isOn` does not: a thread that
has found its level on writes in a later step, and the tracer may have been stopped or started with
another level or file in between.

Files are functions of their names, and nobody else writes them. Whether a file can be opened and
how much of an output gets through is up to the environment. An output that fails leaves the stream
bad until the next successful `open`. The clock gives the date and the microseconds. History is
`held`, the messages that have been written to the open file since it was opened or reset, and
`torn`, the text of the output that failed since then and how many characters of it got through.

* `Ok` / `ok_step`  — what the steps keep.
* `trace_kept`      — what is in the file, in every run.
* `trace_session`   — what a row of messages of one thread makes of the file.
-/

namespace ClibDpa

inductive TrcLevel where
  | error
  | warning
  | information
  | debug
  deriving DecidableEq, Repr

def TrcLevel.rank : TrcLevel → Nat
  | .error => 0
  | .warning => 1
  | .information => 2
  | .debug => 3

namespace IqrfTracer

/-- Whether `open` succeeds, and how many characters of the first line get through if not all. -/
structure Opening where
  opens : Bool
  short : Option Nat

structure Message where
  level : TrcLevel
  channel : Int
  moduleName : String
  sourceFile : String
  sourceLine : Nat
  funcName : String
  msg : String
  date : String
  microseconds : Nat

/-- `pending`: the message of a thread that has found its level on and is to write. -/
structure State where
  fname : String
  isOpen : Bool
  good : Bool
  cout : Bool
  started : Bool
  maxSize : Int
  level : TrcLevel
  count : UInt32
  files : String → Option (List Char)
  screen : List Char
  pending : Nat → Option Message
  held : List (List Char)
  torn : Option (List Char × Nat)

inductive Event where
  | tracerStart (filename : String) (level : TrcLevel) (filesize : Int) (io : Opening)
  | tracerStop
  | tracerIsValid (t : Nat) (m : Message)
  | tracerMessage (t : Nat) (short : Option Nat) (io : Opening)

def init : State :=
  { fname := ""
    isOpen := false
    good := true
    cout := false
    started := false
    maxSize := -1
    level := .debug
    count := 0
    files := fun _ => none
    screen := []
    pending := fun _ => none
    held := []
    torn := none }

/-! ## The file -/

/-- `m_ofstream << text` -/
def output (s : State) (text : List Char) (short : Option Nat) : State :=
  if s.isOpen && s.good then
    { s with
      files := Function.update s.files s.fname
        ((s.files s.fname).map (· ++ match short with
          | none => text
          | some n => text.take n))
      good := short.isNone
      torn := short.map fun n => (text, n) }
  else { s with good := false }

/-- What `openFile` writes first. -/
def header (count : UInt32) : List Char :=
  "file: ".toList ++ Nat.toDigits 10 count.toNat ++ " opened/reset\n".toList

/-- `m_ofstream.open( m_fname, std::ofstream::out | std::ofstream::trunc )` -/
def openStream (s : State) (opens : Bool) : State :=
  if opens then
    { s with
      isOpen := true
      good := true
      files := Function.update s.files s.fname (some [])
      held := []
      torn := none }
  else { s with good := false }

def openFile (s : State) (io : Opening) : State :=
  if s.isOpen then s
  else { output (openStream s io.opens) (header s.count) io.short with count := s.count + 1 }

def closeFile (s : State) : State := { s with isOpen := false }

def resetFile (s : State) (io : Opening) : State := openFile (closeFile s) io

/-- `m_ofstream.tellp()` -/
def tellp (s : State) : Int :=
  if s.good then (((s.files s.fname).getD []).length : Int) else -1

/-! ## The methods -/

def isOn (s : State) (level : TrcLevel) : Bool := level.rank ≤ s.level.rank

/-- A message is put out; it is held when all of it gets through. -/
def hold (s : State) (msg : List Char) (short : Option Nat) : State :=
  { output s msg short with held := if s.good && short.isNone then s.held ++ [msg] else s.held }

def write (s : State) (msg : List Char) (short : Option Nat) (io : Opening) : State :=
  if s.started then
    if s.cout then { s with screen := s.screen ++ msg }
    else if s.isOpen then
      if tellp (hold s msg short) > s.maxSize then resetFile (hold s msg short) io
      else hold s msg short
    else s
  else s

def start (s : State) (fname : String) (level : TrcLevel) (maxSize : Int) (io : Opening) : State :=
  let s' := { closeFile s with
    fname := fname
    cout := fname.isEmpty
    maxSize := maxSize
    level := level }
  { (if fname.isEmpty then s' else openFile s' io) with started := true }

def stop (s : State) : State := { closeFile s with started := false }

def levelToChar : TrcLevel → String
  | .error => "\x7bERR\x7d"
  | .warning => "\x7bWAR\x7d"
  | .information => "\x7bINF\x7d"
  | .debug => "\x7bDBG\x7d"

/-- `sourceFile` from behind its last slash or backslash on. -/
def baseName (sourceFile : List Char) : List Char :=
  (sourceFile.reverse.takeWhile fun c => c ≠ '/' && c ≠ '\\').reverse

/-- The text that `tracerMessage` puts together. `setw( 6 )` is for the date, so the microseconds
are not filled up. -/
def line (m : Message) : List Char :=
  List.leftpad 6 '0' m.date.toList ++ '.' :: Nat.toDigits 10 m.microseconds ++ ' ' ::
    (levelToChar m.level).toList ++ ' ' :: (toString m.channel).toList ++ ' ' ::
    m.moduleName.toList ++ ' ' :: baseName m.sourceFile.toList ++ ':' ::
    Nat.toDigits 10 m.sourceLine ++ ' ' :: m.funcName.toList ++ "() \n".toList ++
    m.msg.toList ++ ['\n']

def setPending (s : State) (t : Nat) (m : Option Message) : State :=
  { s with pending := Function.update s.pending t m }

/-- `tracerIsValid` and `tracerMessage` are the two halves of `TRC_MSG`. -/
def step (s : State) : Event → Option State
  | .tracerStart filename level filesize io => some (start s filename level filesize io)
  | .tracerStop => some (stop s)
  | .tracerIsValid t m =>
    match s.pending t with
    | none => some (if isOn s m.level then setPending s t (some m) else s)
    | some _ => none
  | .tracerMessage t short io =>
    match s.pending t with
    | none => none
    | some m => some (write (setPending s t none) (line m) short io)

/-! ## What the steps keep -/

section Steps

variable {s s' s'' : State} {io : Opening} {old msg : List Char} {short : Option Nat}

/-- Nothing but the stream and the file of that name changes. -/
structure Frame (s s' : State) : Prop where
  fname : s'.fname = s.fname
  cout : s'.cout = s.cout
  started : s'.started = s.started
  maxSize : s'.maxSize = s.maxSize
  level : s'.level = s.level
  pending : s'.pending = s.pending
  files : ∀ f, f ≠ s.fname → s'.files f = s.files f

theorem Frame.refl (s : State) : Frame s s := ⟨rfl, rfl, rfl, rfl, rfl, rfl, fun _ _ => rfl⟩

theorem Frame.trans (h : Frame s s') (h' : Frame s' s'') : Frame s s'' where
  fname := h'.fname.trans h.fname
  cout := h'.cout.trans h.cout
  started := h'.started.trans h.started
  maxSize := h'.maxSize.trans h.maxSize
  level := h'.level.trans h.level
  pending := h'.pending.trans h.pending
  files := fun f hf => (h'.files f (by rw [h.fname]; exact hf)).trans (h.files f hf)

theorem output_frame (s : State) (text : List Char) (short : Option Nat) :
    Frame s (output s text short) := by
  unfold output
  split
  · exact ⟨rfl, rfl, rfl, rfl, rfl, rfl, fun _ hf => Function.update_of_ne hf _ _⟩
  · exact ⟨rfl, rfl, rfl, rfl, rfl, rfl, fun _ _ => rfl⟩

theorem output_kept (s : State) (text : List Char) (short : Option Nat) :
    (output s text short).isOpen = s.isOpen ∧ (output s text short).count = s.count ∧
      (output s text short).held = s.held := by
  unfold output
  split <;> exact ⟨rfl, rfl, rfl⟩

/-- What an output makes of the open file. -/
inductive Put (s : State) (old msg : List Char) (short : Option Nat) : State → Prop where
  | dropped : s.good = false → s.files s.fname = some old →
      Put s old msg short { s with good := false }
  | whole {files : String → Option (List Char)} : s.good = true → short = none →
      files s.fname = some (old ++ msg) →
      Put s old msg short { s with files := files, good := true, torn := none }
  | part {n : Nat} {files : String → Option (List Char)} : s.good = true → short = some n →
      files s.fname = some (old ++ msg.take n) →
      Put s old msg short { s with files := files, good := false, torn := some (msg, n) }

theorem output_put (ho : s.isOpen = true) (hold : s.files s.fname = some old) (msg : List Char)
    (short : Option Nat) : Put s old msg short (output s msg short) := by
  cases hg : s.good with
  | false =>
    simp only [output, hg, Bool.and_false, Bool.false_eq_true, if_false]
    exact .dropped hg hold
  | true =>
    have hboth : (s.isOpen && s.good) = true := by simp [ho, hg]
    simp only [output, hboth, if_true]
    cases short with
    | none =>
      refine .whole hg rfl ?_
      simp [hold]
    | some n =>
      refine .part hg rfl ?_
      simp [hold]

theorem openStream_frame (s : State) (opens : Bool) : Frame s (openStream s opens) := by
  cases opens with
  | false => exact ⟨rfl, rfl, rfl, rfl, rfl, rfl, fun _ _ => rfl⟩
  | true => exact ⟨rfl, rfl, rfl, rfl, rfl, rfl, fun _ hf => Function.update_of_ne hf _ _⟩

theorem openFile_frame (s : State) (io : Opening) : Frame s (openFile s io) := by
  unfold openFile
  split
  · exact .refl s
  · obtain ⟨hf, hc, hs, hm, hl, hsc, hfiles⟩ :=
      (openStream_frame s io.opens).trans (output_frame _ (header s.count) io.short)
    exact ⟨hf, hc, hs, hm, hl, hsc, hfiles⟩

theorem closeFile_frame (s : State) : Frame s (closeFile s) :=
  ⟨rfl, rfl, rfl, rfl, rfl, rfl, fun _ _ => rfl⟩

theorem resetFile_frame (s : State) (io : Opening) : Frame s (resetFile s io) :=
  (closeFile_frame s).trans (openFile_frame (closeFile s) io)

theorem hold_frame (s : State) (msg : List Char) (short : Option Nat) :
    Frame s (hold s msg short) := by
  obtain ⟨hf, hc, hs, hm, hl, hsc, hfiles⟩ := output_frame s msg short
  exact ⟨hf, hc, hs, hm, hl, hsc, hfiles⟩

/-- The number in the first line of the file. -/
def number (s : State) : UInt32 := s.count - 1

/-- The file is its first line and the messages that were written since, and not longer than
`m_maxSize` unless it is the line alone. Behind the output that failed there is nothing; it may have
been the first line. -/
structure Holds (s : State) (text : List Char) : Prop where
  whole : s.good = true → text = header (number s) ++ s.held.flatten ∧
    (text.length : Int) ≤ max s.maxSize (header (number s)).length
  torn : s.good = false → ∃ msg n, s.torn = some (msg, n) ∧
    (text = header (number s) ++ s.held.flatten ++ msg.take n ∨
      msg = header (number s) ∧ s.held = [] ∧ text = msg.take n)

/-- The open file. -/
def Filed (s : State) : Prop :=
  s.isOpen = true → ∃ text, s.files s.fname = some text ∧ Holds s text

theorem openFile_filed (hclosed : s.isOpen = false) (io : Opening) : Filed (openFile s io) := by
  intro ho
  have hopen : openFile s io =
      { output (openStream s io.opens) (header s.count) io.short with count := s.count + 1 } := by
    simp [openFile, hclosed]
  obtain ⟨hkept, _, hheld⟩ := output_kept (openStream s io.opens) (header s.count) io.short
  rw [hopen] at ho ⊢
  have hopens : io.opens = true := by
    by_contra hno
    have hfalse : io.opens = false := Bool.eq_false_iff.mpr hno
    have hstay : (openStream s io.opens).isOpen = s.isOpen := by rw [hfalse]; rfl
    rw [show (output (openStream s io.opens) (header s.count) io.short).isOpen = _ from hkept,
      hstay, hclosed] at ho
    cases ho
  rw [hopens]
  have hempty : (openStream s true).files (openStream s true).fname = some [] := by
    simp [openStream]
  have hput := output_put (s := openStream s true) rfl hempty (header s.count) io.short
  generalize output (openStream s true) (header s.count) io.short = s1 at hput
  have hnumber : ∀ x : State, x.count = s.count + 1 → number x = s.count := by
    intro x hx
    rw [number, hx, UInt32.add_sub_cancel]
  cases hput with
  | dropped hg _ => cases hg
  | whole _ _ hfile =>
    refine ⟨_, hfile, fun _ => ?_, nofun⟩
    rw [hnumber _ rfl]
    exact ⟨by simp [openStream], le_max_right _ _⟩
  | @part n _ _ _ hfile =>
    refine ⟨_, hfile, nofun, fun _ => ⟨header s.count, n, rfl, .inr ⟨?_, rfl, rfl⟩⟩⟩
    rw [hnumber _ rfl]

theorem tellp_of {text : List Char} (hg : s.good = true) (hfile : s.files s.fname = some text) :
    tellp s = text.length := by
  rw [tellp, if_pos hg, hfile, Option.getD_some]

theorem length_le_of_tellp {n : Int} {text : List Char} (hle : tellp s ≤ n) (hg : s.good = true)
    (hfile : s.files s.fname = some text) : (text.length : Int) ≤ n := by
  rwa [tellp_of hg hfile] at hle

/-- A message that does not make the file too long. -/
theorem hold_filed (h : Filed s) (hsize : tellp (hold s msg short) ≤ s.maxSize) :
    Filed (hold s msg short) := by
  intro hopen
  have ho : s.isOpen = true := (output_kept s msg short).1.symm.trans hopen
  obtain ⟨old, hold', hwhole, htorn⟩ := h ho
  have hput := output_put ho hold' msg short
  unfold hold at hsize ⊢
  generalize output s msg short = s1 at hput hsize
  cases hput with
  | dropped hg hfile =>
    rw [hg, Bool.false_and, if_neg Bool.false_ne_true]
    exact ⟨old, hfile, nofun, fun _ => htorn hg⟩
  | @whole files hg hshort hfile =>
    obtain ⟨heq, _⟩ := hwhole hg
    subst hshort
    refine ⟨_, hfile, fun _ => ⟨?_, ?_⟩, nofun⟩
    · rw [heq]
      simp [hg, number]
    · exact le_max_of_le_left (length_le_of_tellp hsize rfl hfile)
  | @part n files hg hshort hfile =>
    obtain ⟨heq, _⟩ := hwhole hg
    subst hshort
    refine ⟨_, hfile, nofun, fun _ => ⟨msg, n, rfl, .inl ?_⟩⟩
    rw [heq]
    simp [number]

theorem write_filed (h : Filed s) (msg : List Char) (short : Option Nat) (io : Opening) :
    Filed (write s msg short io) := by
  unfold write
  split
  · split
    · intro ho
      obtain ⟨text, htext, hwhole, htorn⟩ := h ho
      exact ⟨text, htext, hwhole, htorn⟩
    · split
      · split
        · exact openFile_filed rfl io
        · rename_i hsize
          exact hold_filed h (Int.not_lt.mp hsize)
      · exact h
  · exact h

theorem write_frame (s : State) (msg : List Char) (short : Option Nat) (io : Opening) :
    Frame s (write s msg short io) := by
  have hframe := hold_frame s msg short
  unfold write
  split
  · split
    · exact ⟨rfl, rfl, rfl, rfl, rfl, rfl, fun _ _ => rfl⟩
    · split
      · split
        · exact hframe.trans (resetFile_frame (hold s msg short) io)
        · exact hframe
      · exact .refl s
  · exact .refl s

/-- A stopped tracer has no open file, and neither has one that traces to `std::cout`. -/
structure Ok (s : State) : Prop where
  stopped : s.started = false → s.isOpen = false
  screen : s.cout = true → s.isOpen = false
  file : Filed s

theorem ok_init : Ok init where
  stopped := fun _ => rfl
  screen := fun _ => rfl
  file := fun h => by cases h

theorem ok_write (h : Ok s) (msg : List Char) (short : Option Nat) (io : Opening) :
    Ok (write s msg short io) := by
  have hframe := write_frame s msg short io
  refine ⟨fun hs => ?_, fun hc => ?_, write_filed h.file msg short io⟩
  · rw [hframe.started] at hs
    simp only [write, hs, Bool.false_eq_true, if_false]
    exact h.stopped hs
  · rw [hframe.cout] at hc
    simp only [write, hc, if_true]
    split
    · exact h.screen hc
    · exact h.screen hc

theorem ok_start (s : State) (fname : String) (level : TrcLevel) (maxSize : Int) (io : Opening) :
    Ok (start s fname level maxSize io) := by
  unfold start
  cases hname : fname.isEmpty with
  | true =>
    refine ⟨fun hs => ?_, fun _ => rfl, fun ho => ?_⟩
    · cases hs
    · cases ho
  | false =>
    have hframe := openFile_frame
      { closeFile s with fname := fname, cout := false, maxSize := maxSize, level := level } io
    refine ⟨fun hs => ?_, fun hc => ?_, fun ho => ?_⟩
    · cases hs
    · exact absurd (hframe.cout.symm.trans hc) (by simp)
    · obtain ⟨text, htext, hwhole, htorn⟩ := openFile_filed (s := { closeFile s with
        fname := fname, cout := false, maxSize := maxSize, level := level }) rfl io ho
      exact ⟨text, htext, hwhole, htorn⟩

theorem ok_setPending (h : Ok s) (t : Nat) (m : Option Message) : Ok (setPending s t m) := by
  refine ⟨h.stopped, h.screen, fun ho => ?_⟩
  obtain ⟨text, htext, hwhole, htorn⟩ := h.file ho
  exact ⟨text, htext, hwhole, htorn⟩

theorem ok_step {e : Event} (h : Ok s) (he : step s e = some s') : Ok s' := by
  cases e with
  | tracerStart filename level filesize io => cases he; exact ok_start s filename level filesize io
  | tracerStop =>
    cases he
    exact ⟨fun _ => rfl, fun _ => rfl, fun ho => by cases ho⟩
  | tracerIsValid t m =>
    simp only [step] at he
    split at he
    · cases he
      split
      · exact ok_setPending h t (some m)
      · exact h
    · cases he
  | tracerMessage t short io =>
    simp only [step] at he
    split at he
    · cases he
    · cases he
      exact ok_write (ok_setPending h t none) _ short io

theorem ok_reachable (h : Machine.Reachable step init s) : Ok s :=
  h.inv (fun _ _ _ hI he => ok_step hI he) ok_init

theorem Ok.started (h : Ok s) (ho : s.isOpen = true) : s.started = true ∧ s.cout = false := by
  constructor
  · by_contra hs
    rw [h.stopped (Bool.eq_false_iff.mpr hs)] at ho
    cases ho
  · by_contra hc
    rw [h.screen (Bool.eq_true_of_not_eq_false hc)] at ho
    cases ho

/-- A step leaves all files but the one that it has open in the end, or had to begin with. -/
theorem step_files {e : Event} (he : step s e = some s') {f : String} (hf : f ≠ s'.fname) :
    s'.files f = s.files f := by
  cases e with
  | tracerStart filename level filesize io =>
    cases he
    simp only [start] at hf ⊢
    split
    · rfl
    · rename_i hname
      simp only [if_neg hname] at hf
      have hframe := openFile_frame { closeFile s with
        fname := filename, cout := filename.isEmpty, maxSize := filesize, level := level } io
      rw [hframe.fname] at hf
      exact hframe.files f hf
  | tracerStop => cases he; rfl
  | tracerIsValid t m =>
    simp only [step] at he
    split at he
    · cases he
      split <;> rfl
    · cases he
  | tracerMessage t short io =>
    simp only [step] at he
    split at he
    · cases he
    · rename_i m _
      cases he
      have hframe := write_frame (setPending s t none) (line m) short io
      rw [hframe.fname] at hf
      exact hframe.files f hf

/-- Nothing fails. -/
def works : Opening := ⟨true, none⟩

/-- The tracer is started with a file of that size. -/
def startsLog (maxSize : Int) : List Event := [.tracerStart "log.txt" .information maxSize works]

def sending : Message :=
  { level := .information
    channel := 0
    moduleName := ""
    sourceFile := "Dpa/DpaHandler2.cpp"
    sourceLine := 253
    funcName := "sendRequest"
    msg := "Sent to DPA interface: "
    date := "01-01-2018 12:00:00"
    microseconds := 5 }

theorem startsLog_open (maxSize : Int) : ∃ s, Machine.exec step init (startsLog maxSize) = some s ∧
    s.isOpen = true ∧ s.good = true ∧ s.fname = "log.txt" ∧ s.pending 0 = none := by
  refine ⟨start init "log.txt" .information maxSize works, rfl, ?_⟩
  simp [start, openFile, openStream, output, closeFile, works, init]

/-- The number and the messages of the file after one more: the one that makes it too long is lost
with all before it. -/
def roll (maxSize : Int) (w : UInt32 × List (List Char)) (msg : List Char) :
    UInt32 × List (List Char) :=
  if maxSize < ((header w.1 ++ (w.2 ++ [msg]).flatten).length : Nat) then (w.1 + 1, [])
  else (w.1, w.2 ++ [msg])

/-- The file is open and in order. -/
structure Writable (s : State) : Prop where
  ok : Ok s
  isOpen : s.isOpen = true
  good : s.good = true

theorem write_rolls (h : Writable s) (msg : List Char) :
    Writable (write s msg none works) ∧
      (number (write s msg none works), (write s msg none works).held) =
        roll s.maxSize (number s, s.held) msg := by
  obtain ⟨hstarted, hcout⟩ := h.ok.started h.isOpen
  have hok := ok_write h.ok msg none works
  obtain ⟨old, hold', hwhole, _⟩ := h.ok.file h.isOpen
  obtain ⟨heq, _⟩ := hwhole h.good
  have hg : (hold s msg none).good = true := by simp [hold, output, h.isOpen, h.good]
  obtain ⟨hopen, hcount, _⟩ := output_kept s msg none
  have htellp : tellp (hold s msg none) =
      ((header (number s) ++ (s.held ++ [msg]).flatten).length : Nat) := by
    have hfile : (hold s msg none).files (hold s msg none).fname = some (old ++ msg) := by
      simp [hold, output, h.isOpen, h.good, hold']
    rw [tellp_of hg hfile, heq]
    simp
  have hwrite : write s msg none works =
      if tellp (hold s msg none) > s.maxSize then resetFile (hold s msg none) works
      else hold s msg none := by
    simp only [write, hstarted, hcout, h.isOpen, if_true, Bool.false_eq_true, if_false]
  rw [hwrite] at hok ⊢
  rw [htellp] at hok ⊢
  unfold roll
  by_cases hlong : ((header (number s) ++ (s.held ++ [msg]).flatten).length : Nat) > s.maxSize
  · rw [if_pos hlong] at hok ⊢
    rw [if_pos hlong]
    have hreset : resetFile (hold s msg none) works =
        { output (openStream (closeFile (hold s msg none)) true) (header s.count) none with
          count := s.count + 1 } := by
      have hc : (closeFile (hold s msg none)).count = s.count := hcount
      simp [resetFile, openFile, closeFile, works, ← hc]
    rw [hreset] at hok ⊢
    refine ⟨⟨hok, ?_, ?_⟩, ?_⟩
    · simp [output, openStream]
    · simp [output, openStream]
    · simp [output, openStream, number]
  · rw [if_neg hlong] at hok ⊢
    rw [if_neg hlong]
    refine ⟨⟨hok, hopen.trans h.isOpen, hg⟩, ?_⟩
    have hnumber : number (hold s msg none) = number s := congrArg (· - 1) hcount
    rw [hnumber]
    simp [hold, h.good]

/-- `TRC_MSG` of thread `t`, while the level stays and all gets through. -/
def traces (level : TrcLevel) (t : Nat) (m : Message) : List Event :=
  .tracerIsValid t m :: if m.level.rank ≤ level.rank then [.tracerMessage t none works] else []

theorem traces_on {t : Nat} {m : Message} (hon : m.level.rank ≤ s.level.rank)
    (ht : s.pending t = none) (h : Writable s) :
    ∃ s', Machine.exec step s (traces s.level t m) = some s' ∧ Writable s' ∧ Frame s s' ∧
      (number s', s'.held) = roll s.maxSize (number s, s.held) (line m) := by
  have hp : Writable (setPending (setPending s t (some m)) t none) :=
    ⟨ok_setPending (ok_setPending h.ok t (some m)) t none, h.isOpen, h.good⟩
  obtain ⟨hw, hroll⟩ := write_rolls hp (line m)
  have hback : (setPending (setPending s t (some m)) t none).pending = s.pending := by
    funext u
    by_cases hu : u = t
    · subst hu
      simp [setPending, ht]
    · simp [setPending, hu]
  have hframe : Frame s (setPending (setPending s t (some m)) t none) :=
    ⟨rfl, rfl, rfl, rfl, rfl, hback, fun _ _ => rfl⟩
  refine ⟨_, ?_, hw, hframe.trans (write_frame _ (line m) none works), hroll⟩
  have hvalid : step s (.tracerIsValid t m) = some (setPending s t (some m)) := by
    simp [step, ht, isOn, hon]
  rw [traces, if_pos hon, Machine.exec_cons_some hvalid, Machine.exec_single]
  simp [step, setPending]

/-- A row of messages of one thread that all get through, for the open file of a reachable state. -/
theorem trace_session (h : Machine.Reachable step init s) (ho : s.isOpen = true)
    (hg : s.good = true) {t : Nat} (ht : s.pending t = none) (ms : List Message) :
    ∃ s' w, Machine.exec step s (ms.flatMap (traces s.level t)) = some s' ∧
      w = ((ms.filter fun m => isOn s m.level).map line).foldl (roll s.maxSize)
        (number s, s.held) ∧
      s'.files s.fname = some (header w.1 ++ w.2.flatten) := by
  have hrun : ∀ (ms : List Message) (s : State), Writable s → s.pending t = none →
      ∃ s', Machine.exec step s (ms.flatMap (traces s.level t)) = some s' ∧
        Writable s' ∧ s'.fname = s.fname ∧ (number s', s'.held) =
          ((ms.filter fun m => isOn s m.level).map line).foldl (roll s.maxSize)
            (number s, s.held) := by
    intro ms
    induction ms with
    | nil => intro s hw _; exact ⟨s, rfl, hw, rfl, rfl⟩
    | cons m rest ih =>
      intro s hw ht
      by_cases hon : m.level.rank ≤ s.level.rank
      · obtain ⟨s1, hfirst, hw1, hframe, hroll⟩ := traces_on hon ht hw
        obtain ⟨s', hexec, hw', hf, heq⟩ := ih s1 hw1 ((congrFun hframe.pending t).trans ht)
        rw [hframe.level] at hexec
        refine ⟨s', Machine.exec_append_iff.mpr ⟨s1, hfirst, hexec⟩, hw', hf.trans hframe.fname,
          ?_⟩
        rw [heq, hroll, hframe.maxSize]
        simp [isOn, hon, hframe.level]
      · obtain ⟨s', hexec, hw', hf, heq⟩ := ih s hw ht
        have hvalid : step s (.tracerIsValid t m) = some s := by simp [step, ht, isOn, hon]
        refine ⟨s', ?_, hw', hf, ?_⟩
        · rw [List.flatMap_cons, traces, if_neg hon]
          exact (Machine.exec_cons_some hvalid).trans hexec
        · rw [heq]
          simp [isOn, hon]
  obtain ⟨s', hexec, hw', hf, heq⟩ := hrun ms s ⟨ok_reachable h, ho, hg⟩ ht
  obtain ⟨text, htext, hwhole, _⟩ := hw'.ok.file hw'.isOpen
  refine ⟨s', _, hexec, rfl, ?_⟩
  rw [← heq, ← hf, htext, (hwhole hw'.good).1]

theorem trace_session_log : ∃ s s' w, Machine.exec step init (startsLog 90) = some s ∧
    Machine.exec step s ([sending, sending].flatMap (traces s.level 0)) = some s' ∧
    w = (([sending, sending].filter fun m => isOn s m.level).map line).foldl (roll s.maxSize)
      (number s, s.held) ∧ s'.files "log.txt" = some (header w.1 ++ w.2.flatten) := by
  obtain ⟨s, hexec, ho, hg, hf, ht⟩ := startsLog_open 90
  obtain ⟨s', w, hexec', hw, hfile⟩ := trace_session ⟨_, hexec⟩ ho hg ht [sending, sending]
  rw [hf] at hfile
  exact ⟨s, s', w, hexec, hexec', hw, hfile⟩

end Steps

end IqrfTracer
end ClibDpa
