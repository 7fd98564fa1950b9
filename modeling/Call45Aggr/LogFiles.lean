import Call45Aggr.Library.Delimited
import Call45Aggr.LogInstance
import Call45Aggr.TimePeriods
import Mathlib.Logic.Function.Basic

/-! The files that the log is written to, one for each destination, and the reading of their
lines. Every file can be opened and written. -/
namespace Call45Aggr
open Library

inductive LogDestination
  | any
  | sms
  | voice
  | data
  deriving DecidableEq

structure FiledMessage extends LogMessage where
  threadName : String
  destination : LogDestination
  deriving DecidableEq

namespace LogLevel

def text : LogLevel → String
  | .debug => "DEBUG"
  | .verbose => "VERBOSE"
  | .info => "INFO"
  | .notice => "NOTICE"
  | .warning => "WARNING"
  | .error => "ERROR"
  | .critical => "CRITICAL"

def parseLogLevel (level : String) : LogLevel :=
  if level = "DEBUG" then .debug
  else if level = "VERBOSE" then .verbose
  else if level = "INFO" then .info
  else if level = "WARNING" then .warning
  else if level = "NOTICE" then .notice
  else if level = "ERROR" then .error
  else if level = "CRITICAL" then .critical
  else .info

theorem parseLogLevel_text (level : LogLevel) : parseLogLevel level.text = level := by
  cases level <;> decide

theorem plain_text (level : LogLevel) : ']' ∉ level.text.toList ∧ '\n' ∉ level.text.toList := by
  cases level <;> decide

end LogLevel

/-- `write_single_message`, up to its newline. -/
def FiledMessage.line (mes : FiledMessage) : List Char :=
  '[' :: ((stringTime mes.timestamp).toList ++ "] [".toList ++ mes.threadName.toList ++ "] [".toList ++
    mes.level.text.toList ++ "]    ".toList ++ mes.message.toList)

structure FileLogWriter where
  path2file : List Char
  destination : LogDestination
  deriving DecidableEq

/-- The contents of the files by their paths. -/
abbrev Files := List Char → List Char

namespace FileLogWriter

def onLog (w : FileLogWriter) (messages : List FiledMessage) (files : Files) : Files :=
  if messages = [] ∨ w.path2file = [] then files
  else
    let own := messages.filter fun mes => mes.destination = w.destination
    Function.update files w.path2file (files w.path2file ++ terminated '\n' (own.map FiledMessage.line))

end FileLogWriter

/-- The path to the logs as `boost::filesystem` takes it apart: the file name is a stem and
an extension. -/
structure LogPath where
  directory : List Char
  branch : List Char
  stem : List Char
  extension : List Char
  within : directory = [] ∨ directory.getLast? = some '/'
  file : '/' ∉ stem ++ extension
  dotted : extension = [] ∨ extension.head? = some '.'

namespace LogPath

def path (p : LogPath) : List Char := p.directory ++ (p.stem ++ p.extension)

def suffixed (p : LogPath) (suffix : String) : List Char := p.branch ++ '/' :: (p.stem ++ suffix.toList)

/-- The writers that `start_log` registers. -/
def writers (p : LogPath) : List FileLogWriter :=
  [⟨p.path,.any⟩,⟨p.suffixed "_sms.log",.sms⟩,⟨p.suffixed "_voice.log",.voice⟩,
    ⟨p.suffixed "_data.log",.data⟩]

/-- What the log thread does at a flush. -/
def flush (p : LogPath) (files : Files) (messages : List FiledMessage) : Files :=
  p.writers.foldl (fun files w => w.onLog messages files) files

end LogPath

/-- What a line tells. -/
structure LogEntry where
  timestamp : Int
  threadName : String
  level : LogLevel
  message : String
  deriving DecidableEq

def FiledMessage.entry (mes : FiledMessage) : LogEntry := ⟨mes.timestamp,mes.threadName,mes.level,mes.message⟩

def readLine (line : List Char) : LogEntry :=
  let (time,rest) := field ']' (line.drop 1)
  let (threadName,rest) := field ']' (rest.drop 3)
  let (level,rest) := field ']' (rest.drop 3)
  {timestamp := parseDateTime default (String.ofList time)
   threadName := String.ofList threadName
   level := .parseLogLevel (String.ofList level)
   message := String.ofList (rest.drop 5)}

def readLog (content : List Char) : List LogEntry := (readTerminated '\n' content).map readLine

/-- Its time prints in four digits of the year and its texts stay clear of the delimiters. -/
structure FiledMessage.Readable (mes : FiledMessage) : Prop where
  years : 1900 ≤ Calendar.yearOf (mes.timestamp / 86400) ∧ Calendar.yearOf (mes.timestamp / 86400) ≤ 4900
  threadName : ']' ∉ mes.threadName.toList ∧ '\n' ∉ mes.threadName.toList
  message : '\n' ∉ mes.message.toList

theorem stringTime_plain (dt : Int) {c : Char} (other : c.isDigit = false) (dash : c ≠ '-') (blank : c ≠ ' ')
    (colon : c ≠ ':') : c ∉ (stringTime dt).toList := by
  have digits (width n : Nat) : c ∉ Decimal.pad width n := by
    intro member
    rw [DateTimeText.pad_digits width n c member] at other
    contradiction
  simp [stringTime,strftime,DateTimeText.chars,digits,dash,blank,colon]

namespace FiledMessage

theorem line_plain {mes : FiledMessage} (readable : mes.Readable) : '\n' ∉ mes.line := by
  have time := stringTime_plain mes.timestamp (by decide : ('\n').isDigit = false) (by decide) (by decide) (by decide)
  have level := (LogLevel.plain_text mes.level).2
  simp [line,time,level,readable.threadName.2,readable.message]

theorem readLine_line {mes : FiledMessage} (readable : mes.Readable) : readLine mes.line = mes.entry := by
  have time := stringTime_plain mes.timestamp (by decide : (']').isDigit = false) (by decide) (by decide) (by decide)
  have level := (LogLevel.plain_text mes.level).1
  have shape : mes.line.drop 1 = (stringTime mes.timestamp).toList ++ ']' :: ([' ','['] ++ (mes.threadName.toList ++
      ']' :: ([' ','['] ++ (mes.level.text.toList ++ ']' :: ([' ',' ',' ',' '] ++ mes.message.toList))))) := by
    simp [line]
  rw [readLine,shape,field_read time]
  simp only [List.cons_append,List.nil_append,List.drop_succ_cons,List.drop_zero]
  rw [field_read readable.threadName.1]
  simp only [List.drop_succ_cons,List.drop_zero]
  rw [field_read level]
  simp [entry,parseDateTime_stringTime _ _ readable.years,LogLevel.parseLogLevel_text]

end FiledMessage

theorem readLog_lines {messages : List FiledMessage} (readable : ∀ mes ∈ messages, mes.Readable) :
    readLog (terminated '\n' (messages.map FiledMessage.line)) = messages.map FiledMessage.entry := by
  rw [readLog,readTerminated_terminated,List.map_map]
  · exact List.map_congr_left fun mes member => FiledMessage.readLine_line (readable mes member)
  · intro line member
    obtain ⟨mes,inside,rfl⟩ := List.mem_map.mp member
    exact FiledMessage.line_plain (readable mes inside)

namespace FileLogWriter

/-- What a writer adds to its file for `messages`. -/
def added (w : FileLogWriter) (messages : List FiledMessage) : List Char :=
  terminated '\n' ((messages.filter fun mes => mes.destination = w.destination).map FiledMessage.line)

theorem added_append (w : FileLogWriter) (messages others : List FiledMessage) :
    w.added (messages ++ others) = w.added messages ++ w.added others := by
  simp [added,terminated]

theorem onLog_own (w : FileLogWriter) (named : w.path2file ≠ []) (messages : List FiledMessage) (files : Files) :
    w.onLog messages files w.path2file = files w.path2file ++ w.added messages := by
  unfold onLog
  split
  next nothing =>
    obtain rfl : messages = [] := nothing.resolve_right named
    exact (List.append_nil _).symm
  next => exact Function.update_self _ _ _

theorem onLog_other (w : FileLogWriter) {path : List Char} (other : path ≠ w.path2file)
    (messages : List FiledMessage) (files : Files) : w.onLog messages files path = files path := by
  unfold onLog
  split
  · rfl
  · exact Function.update_of_ne other _ _

theorem foldl_other (ws : List FileLogWriter) {path : List Char} (other : path ∉ ws.map path2file)
    (messages : List FiledMessage) (files : Files) :
    ws.foldl (fun files w => w.onLog messages files) files path = files path := by
  induction ws generalizing files with
  | nil => rfl
  | cons first rest ih =>
    obtain ⟨apart,absent⟩ := not_or.mp (List.mem_cons.not.mp other)
    rw [List.foldl_cons,ih absent,first.onLog_other apart]

theorem foldl_own {ws : List FileLogWriter} (distinct : (ws.map path2file).Nodup) {w : FileLogWriter}
    (member : w ∈ ws) (named : w.path2file ≠ []) (messages : List FiledMessage) (files : Files) :
    ws.foldl (fun files w => w.onLog messages files) files w.path2file = files w.path2file ++ w.added messages := by
  induction ws generalizing files with
  | nil => contradiction
  | cons first rest ih =>
    obtain ⟨absent,others⟩ := List.nodup_cons.mp distinct
    rw [List.foldl_cons]
    rcases List.mem_cons.mp member with rfl | later
    · rw [foldl_other rest absent,w.onLog_own named]
    · have apart : w.path2file ≠ first.path2file := by
        rintro same
        exact absent (same ▸ List.mem_map_of_mem later)
      rw [ih others later,first.onLog_other apart]

end FileLogWriter

namespace LogPath

theorem path_ne_suffixed (p : LogPath) {suffix : String} (plain : '/' ∉ suffix.toList)
    (undotted : suffix.toList.head? ≠ some '.') (nonempty : suffix.toList ≠ []) : p.path ≠ p.suffixed suffix := by
  intro same
  have stem : '/' ∉ p.stem := fun member => p.file (List.mem_append_left _ member)
  have extension : '/' ∉ p.extension := fun member => p.file (List.mem_append_right _ member)
  -- the two file names, read from the back
  have second : field '/' (p.suffixed suffix).reverse =
      ((p.stem ++ suffix.toList).reverse,'/' :: p.branch.reverse) := by
    have absent : '/' ∉ (p.stem ++ suffix.toList).reverse := by
      rw [List.mem_reverse,List.mem_append]
      exact not_or.mpr ⟨stem,plain⟩
    rw [suffixed,List.reverse_append,List.reverse_cons,List.append_assoc]
    exact field_read absent _
  rcases p.within with none | last
  · have absent : '/' ∉ p.path := by simp [path,none,stem,extension]
    rw [same] at absent
    simp [suffixed] at absent
  · obtain ⟨before,whole⟩ := List.getLast?_eq_some_iff.mp last
    have first : field '/' p.path.reverse = ((p.stem ++ p.extension).reverse,'/' :: before.reverse) := by
      rw [path,whole,List.reverse_append,List.reverse_concat]
      exact field_read (fun member => p.file (List.mem_reverse.mp member)) _
    rw [same,second] at first
    have named : suffix.toList = p.extension := by simpa using (Prod.mk.inj first).1
    rw [named] at undotted nonempty
    exact p.dotted.elim nonempty undotted

theorem suffixed_inj (p : LogPath) {suffix other : String} (same : p.suffixed suffix = p.suffixed other) :
    suffix = other := by
  simpa [suffixed,String.toList_inj] using same

theorem writers_distinct (p : LogPath) : (p.writers.map FileLogWriter.path2file).Nodup := by
  have main (suffix : String)
      (plain : '/' ∉ suffix.toList ∧ suffix.toList.head? ≠ some '.' ∧ suffix.toList ≠ []) :
      p.path ≠ p.suffixed suffix := p.path_ne_suffixed plain.1 plain.2.1 plain.2.2
  have sms := main "_sms.log" (by decide)
  have voice := main "_voice.log" (by decide)
  have data := main "_data.log" (by decide)
  have apart {suffix other : String} (different : suffix ≠ other) : p.suffixed suffix ≠ p.suffixed other :=
    fun same => different (p.suffixed_inj same)
  simp [writers,sms,voice,data,apart (by decide : "_sms.log" ≠ "_voice.log"),
    apart (by decide : "_sms.log" ≠ "_data.log"),apart (by decide : "_voice.log" ≠ "_data.log")]

theorem flushes_own (p : LogPath) {w : FileLogWriter} (member : w ∈ p.writers) (named : w.path2file ≠ [])
    (batches : List (List FiledMessage)) (files : Files) :
    batches.foldl p.flush files w.path2file = files w.path2file ++ w.added batches.flatten := by
  induction batches generalizing files with
  | nil => exact (List.append_nil _).symm
  | cons batch rest ih =>
    rw [List.foldl_cons,ih,flush,FileLogWriter.foldl_own p.writers_distinct member named,List.flatten_cons,
      w.added_append,List.append_assoc]

theorem flushes_other (p : LogPath) {path : List Char} (other : path ∉ p.writers.map FileLogWriter.path2file)
    (batches : List (List FiledMessage)) (files : Files) : batches.foldl p.flush files path = files path := by
  induction batches generalizing files with
  | nil => rfl
  | cons batch rest ih => rw [List.foldl_cons,ih,flush,FileLogWriter.foldl_other _ other]

/-- Each of the files gets exactly the lines of its own messages behind what it had, once and in the
order in which the log thread passed them on. Where all of these are readable they are read back. -/
theorem files_read_back (p : LogPath) (batches : List (List FiledMessage)) (files : Files) :
    (∀ w ∈ p.writers, w.path2file ≠ [] →
      let own := batches.flatten.filter fun mes => mes.destination = w.destination
      batches.foldl p.flush files w.path2file = files w.path2file ++ terminated '\n' (own.map FiledMessage.line) ∧
      ((∀ mes ∈ own, mes.Readable) →
        readLog (terminated '\n' (own.map FiledMessage.line)) = own.map FiledMessage.entry)) ∧
    (∀ mes : FiledMessage, ∃! w, w ∈ p.writers ∧ w.destination = mes.destination) ∧
    ∀ path, path ∉ p.writers.map FileLogWriter.path2file → batches.foldl p.flush files path = files path := by
  refine ⟨fun w member named => ?_,fun mes => ?_,fun path other => p.flushes_other other batches files⟩
  · exact ⟨p.flushes_own member named batches files,readLog_lines⟩
  · cases shape : mes.destination <;> simp [writers,ExistsUnique]

def daemonLog : LogPath where
  directory := "/var/log/".toList
  branch := "/var/log".toList
  stem := "call45aggr".toList
  extension := ".log".toList
  within := .inr (by decide)
  file := by decide
  dotted := .inr (by decide)

def started : FiledMessage := ⟨⟨"start from: 951827696",951827696,.notice,0⟩,"main",.any⟩

def called : FiledMessage := ⟨⟨"call [1]",951827697,.debug,0⟩,"io",.voice⟩

theorem files_read_back_daemonLog : ∃ content,
    [[started],[called,started]].foldl daemonLog.flush (fun _ => []) daemonLog.path = content ∧
    readLog content = [started.entry,started.entry] := by
  obtain ⟨written,read⟩ := (files_read_back daemonLog [[started],[called,started]] fun _ => []).1
    ⟨daemonLog.path,.any⟩ List.mem_cons_self (by decide)
  have readable : started.Readable := ⟨by decide,by decide,by decide⟩
  refine ⟨_,written,read fun mes member => ?_⟩
  have own : [[started],[called,started]].flatten.filter (fun mes => mes.destination = .any) = [started,started] := by
    decide
  rw [own] at member
  rcases List.mem_cons.mp member with rfl | last
  · exact readable
  · rw [List.mem_singleton.mp last]
    exact readable

end LogPath

end Call45Aggr
