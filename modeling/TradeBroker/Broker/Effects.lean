/-
# TradeBroker.Broker.Effects — what the broker asks of the world, and what the world may answer.

Every interaction of `broker/journal.py` and `broker/transaction.py` with something outside the
process is one `Op`: a file-system call, the clock, `uuid4`, an endpoint method, the fault hook.
`Step` says what each may answer and what it leaves behind.

* An ENDPOINT and a FAULT HOOK answer anything their type allows: any result, any exception.
* A FILE-SYSTEM call succeeds or raises some `OSError`, at any time.  `os.replace` is atomic and
  durable: it installs the whole payload or changes nothing, and it is the only call that changes
  what is on disk.  The temporary file has a fresh name that nothing else opens, so what
  `os.replace` moves is the payload that was written to it.
* A CRASH is not an operation: a run may stop before or after any of them.

The trace is history only, nothing in the program reads it.  It records what was installed on disk,
every endpoint and hook call with its outcome, and every I/O failure.  A `trade` event also keeps
what the program cannot see: the journal that was durable when the call was made, and whether the
console really swapped.

Two worlds with more detail stand behind this one.  A drive with caches, which can lose power, is in
`Journal.Drive`, and `Broker.Refinement` shows that it answers no file call in a way that is not foreseen
here.  An adapter with bytes in flight is in `Gba` and `Firmware`; here its whole conversation is the
answer of one `gbaTrade`, and `Broker.Wire` plays the conversation as that answer.
-/
import TradeBroker.Lib.Program
import TradeBroker.Journal.Record

namespace TradeBroker

open Lib

/-! ## §1 — the disk. -/

/-- `artifacts/<transaction_id>/<label>-<sha256>.pk3`, by its parts. -/
structure ArtifactPath where
  transactionId : PyStr
  label : PyStr
  sha256 : PyStr
  deriving DecidableEq

/-- The content of the journal file, as `json.loads(path.read_text(encoding="utf-8"))` sees it: a document, a
text that is no JSON, or bytes that are no text. -/
inductive JournalText where
  | json (doc : Json)
  | notJson
  | notUtf8

structure Disk where
  journal : Option JournalText
  artifacts : ArtifactPath → Option Bytes

/-- A file and the content `_atomic_bytes` is asked to give it; the two kinds of file are the only ones that
the broker writes. -/
inductive Write where
  | journal (text : JournalText)
  | artifact (path : ArtifactPath) (bytes : Bytes)

/-- The effect of `os.replace`: one file has its new content, every other file is as it was. -/
def Disk.install (d : Disk) : Write → Disk
  | .journal text => { d with journal := some text }
  | .artifact path bytes => { d with artifacts := Function.update d.artifacts path (some bytes) }

/-! ## §2 — operations. -/

/-- The points at which the coordinator calls `fault_hook`, by the name that it passes. -/
inductive Boundary where
  | beforeSwitchStage1
  | afterSwitch1EndpointBeforePersist
  | afterPlaceholderOnSwitch
  | beforeGbaTrade
  | afterGbaEndpointBeforePersist
  | afterBCommittedToGba
  | beforeSwitchStage2
  | afterSwitch2EndpointBeforePersist
  | beforePlaceholderValidation
  deriving DecidableEq

/-- The calls of `_atomic_bytes` that leave the target file alone.  `writeTemp` is the write and the
flush, `fsyncTemp` the `fsync` and the close at the end of the `with` block. -/
inductive FileCall where
  | mkdir
  | createTemp
  | writeTemp
  | fsyncTemp
  | unlinkTemp
  | openDir
  | fsyncDir
  | closeDir
  deriving DecidableEq

inductive Op where
  | pathExists
  | readText
  | file (call : FileCall) (target : Write)
  | replace (target : Write)
  | now
  | uuid4
  | connect (console : Console)
  | waitForTradeMenu
  | switchTrade (offered : Pokemon100)
  | gbaTrade (offered : Pokemon100)
  | close (console : Console)
  | faultHook (boundary : Boundary) (record : JournalRecord)

/-- The answers of an operation; one that can raise answers with an `Except`, and what it raises is an answer
like any other. -/
def Ret : Op → Type
  | .pathExists => Except Exc Bool
  | .readText => Except Exc JournalText
  | .now => PyStr
  | .uuid4 => Uuid
  | .switchTrade _ => Except Exc TradeResult
  | .gbaTrade _ => Except Exc GbaTradeResult
  | _ => Except Exc Unit

/-- The operation reads or replaces the journal file. -/
def Op.onJournal : Op → Bool
  | .readText => true
  | .replace (.journal _) => true
  | _ => false

/-! ## §3 — the world. -/

/-- What a `trade_once` call came back with: a result of either console, or an exception. -/
inductive TradeOutcome where
  | raised (e : Exc)
  | switchResult (r : TradeResult)
  | gbaResult (r : GbaTradeResult)
  deriving DecidableEq

/-- One `trade_once` call: the request and its outcome, the journal that was durable when it was
made, and whether the records really changed hands. -/
structure Trade where
  console : Console
  offered : Pokemon100
  durable : Option JournalText
  outcome : TradeOutcome
  swapped : Bool

inductive Event where
  | installed (w : Write)
  | ioError
  | connect (console : Console) (answer : Except Exc Unit)
  | waitForTradeMenu (answer : Except Exc Unit)
  | trade (t : Trade)
  | close (console : Console) (answer : Except Exc Unit)
  | faultHook (boundary : Boundary) (answer : Except Exc Unit)

structure World where
  disk : Disk
  trace : List Event

namespace World

def log (w : World) (e : Event) : World := { w with trace := w.trace ++ [e] }

/-- A completed `os.replace`: the new bytes are the file, and the log says so. -/
def install (w : World) (target : Write) : World :=
  ⟨w.disk.install target, w.trace ++ [.installed target]⟩

@[simp] theorem log_disk (w : World) (e : Event) : (w.log e).disk = w.disk := rfl

@[simp] theorem log_trace (w : World) (e : Event) : (w.log e).trace = w.trace ++ [e] := rfl

@[simp] theorem install_trace (w : World) (t : Write) :
    (w.install t).trace = w.trace ++ [.installed t] := rfl

@[simp] theorem install_disk (w : World) (t : Write) : (w.install t).disk = w.disk.install t := rfl

/-- The world after `n` file-system calls have raised: the same disk, and as many more events. -/
def faults (w : World) (n : Nat) : World :=
  { w with trace := w.trace ++ List.replicate n .ioError }

@[simp] theorem faults_disk (w : World) (n : Nat) : (w.faults n).disk = w.disk := rfl

@[simp] theorem faults_zero (w : World) : w.faults 0 = w := by
  simp [faults]

@[simp] theorem faults_faults (w : World) (m n : Nat) : (w.faults m).faults n = w.faults (m + n) := by
  simp only [faults, List.append_assoc, List.replicate_append_replicate]

end World

/-! ## §4 — what the world may answer. -/

/-- A file-system call that raises changes nothing on disk, and leaves a mark in the trace. -/
def IoFailed {α : Type} (w : World) (answer : Except Exc α) (w' : World) : Prop :=
  ∃ e : Exc, e.isOSError = true ∧ answer = .error e ∧ w' = w.log .ioError

def Step (w : World) : (op : Op) → Ret op → World → Prop
  | .pathExists, answer, w' =>
      (answer = .ok w.disk.journal.isSome ∧ w' = w) ∨ IoFailed w answer w'
  | .readText, answer, w' =>
      (∃ text, w.disk.journal = some text ∧ answer = .ok text ∧ w' = w) ∨ IoFailed w answer w'
  | .file _ _, answer, w' => (answer = .ok () ∧ w' = w) ∨ IoFailed w answer w'
  | .replace target, answer, w' =>
      (answer = .ok () ∧ w' = w.install target) ∨ IoFailed w answer w'
  | .now, answer, w' => encodable answer = true ∧ w' = w
  | .uuid4, answer, w' => answer.isV4 = true ∧ w' = w
  | .connect console, answer, w' => w' = w.log (.connect console answer)
  | .waitForTradeMenu, answer, w' => w' = w.log (.waitForTradeMenu answer)
  | .switchTrade offered, answer, w' =>
      ∃ swapped, w' = w.log (.trade ⟨.switch, offered, w.disk.journal,
        (match answer with
          | .ok r => .switchResult r
          | .error e => .raised e), swapped⟩)
  | .gbaTrade offered, answer, w' =>
      ∃ swapped, w' = w.log (.trade ⟨.gba, offered, w.disk.journal,
        (match answer with
          | .ok r => .gbaResult r
          | .error e => .raised e), swapped⟩)
  | .close console, answer, w' => w' = w.log (.close console answer)
  | .faultHook boundary _, answer, w' => w' = w.log (.faultHook boundary answer)

/-- **Only `os.replace` changes the disk**, and nothing rewrites the past. -/
theorem Step.disk {w w' : World} {op : Op} {r : Ret op} (h : Step w op r w') :
    (w'.disk = w.disk ∧ ∃ evs, w'.trace = w.trace ++ evs ∧ ∀ t, .installed t ∉ evs) ∨
      ∃ target, op = .replace target ∧ w' = w.install target := by
  have hlog : ∀ ev : Event, (∀ t, .installed t ≠ ev) → (w.log ev).disk = w.disk ∧
      ∃ evs, (w.log ev).trace = w.trace ++ evs ∧ ∀ t, .installed t ∉ evs :=
    fun ev hev => ⟨rfl, [ev], rfl, fun t ht => hev t (by simpa using ht)⟩
  have hsame : w.disk = w.disk ∧ ∃ evs, w.trace = w.trace ++ evs ∧ ∀ t, .installed t ∉ evs :=
    ⟨rfl, [], by simp⟩
  cases op with
  | pathExists =>
      rcases h with ⟨_, rfl⟩ | ⟨_, _, _, rfl⟩
      · exact Or.inl hsame
      · exact Or.inl (hlog _ (by simp))
  | readText =>
      rcases h with ⟨_, _, _, rfl⟩ | ⟨_, _, _, rfl⟩
      · exact Or.inl hsame
      · exact Or.inl (hlog _ (by simp))
  | file c t =>
      rcases h with ⟨_, rfl⟩ | ⟨_, _, _, rfl⟩
      · exact Or.inl hsame
      · exact Or.inl (hlog _ (by simp))
  | replace t =>
      rcases h with ⟨_, rfl⟩ | ⟨_, _, _, rfl⟩
      · exact Or.inr ⟨t, rfl, rfl⟩
      · exact Or.inl (hlog _ (by simp))
  | now =>
      obtain ⟨_, rfl⟩ := h
      exact Or.inl hsame
  | uuid4 =>
      obtain ⟨_, rfl⟩ := h
      exact Or.inl hsame
  | connect c =>
      obtain rfl : w' = _ := h
      exact Or.inl (hlog _ (by simp))
  | waitForTradeMenu =>
      obtain rfl : w' = _ := h
      exact Or.inl (hlog _ (by simp))
  | switchTrade o =>
      obtain ⟨_, rfl⟩ := h
      exact Or.inl (hlog _ (by simp))
  | gbaTrade o =>
      obtain ⟨_, rfl⟩ := h
      exact Or.inl (hlog _ (by simp))
  | close c =>
      obtain rfl : w' = _ := h
      exact Or.inl (hlog _ (by simp))
  | faultHook b rec =>
      obtain rfl : w' = _ := h
      exact Or.inl (hlog _ (by simp))

/-! ## §5 — the programs of the broker. -/

/-- A broker program that may raise, over the operations of the world. -/
abbrev Broker (α : Type) : Type := Act Op Ret Exc α

/-- A computed result, as a broker program: it asks the world for nothing. -/
def ofExcept {α : Type} (r : Except Exc α) : Broker α := ExceptT.mk (pure r)

/-- `self.path.exists()`, which may raise as well. -/
def pathExists : Broker Bool := ExceptT.mk (.call .pathExists .done)

/-- `self.path.read_text(encoding="utf-8")`, up to the parse. -/
def readText : Broker JournalText := ExceptT.mk (.call .readText .done)

def fileCall (call : FileCall) (target : Write) : Broker Unit :=
  ExceptT.mk (.call (.file call target) .done)

/-- `os.replace(temp_name, path)`. -/
def replaceFile (target : Write) : Broker Unit := ExceptT.mk (.call (.replace target) .done)

/-- `_now()`: any text, as long as it encodes. -/
def clock : Broker PyStr := ExceptT.mk (.call .now fun t => .done (.ok t))

def uuid4 : Broker Uuid := ExceptT.mk (.call .uuid4 fun u => .done (.ok u))

def connect (console : Console) : Broker Unit := ExceptT.mk (.call (.connect console) .done)

def waitForTradeMenu : Broker Unit := ExceptT.mk (.call .waitForTradeMenu .done)

/-- `self.switch.trade_once(offered)`: any result whatsoever, since the driver is no part of the repository. -/
def switchTradeOnce (offered : Pokemon100) : Broker TradeResult :=
  ExceptT.mk (.call (.switchTrade offered) .done)

/-- `self.gba.trade_once(offered)`; what the endpoint of the repository really answers is worked out in `Gba`. -/
def gbaTradeOnce (offered : Pokemon100) : Broker GbaTradeResult :=
  ExceptT.mk (.call (.gbaTrade offered) .done)

def close (console : Console) : Broker Unit := ExceptT.mk (.call (.close console) .done)

def faultHook (boundary : Boundary) (record : JournalRecord) : Broker Unit :=
  ExceptT.mk (.call (.faultHook boundary record) .done)

end TradeBroker
