import Call45Aggr.Library.SqlTuple
import Call45Aggr.Model

/-! `utils::string_streambuf` under an `ostream`, and the outputs that write through it. -/
namespace Call45Aggr
open Library

structure StringStreambuf where
  buffer : List Char

namespace StringStreambuf

/-- Where there is no put area a single character comes here; -1 is the end of file. -/
def overflow (sb : StringStreambuf) (ch : Int) : Int × StringStreambuf :=
  (ch,⟨sb.buffer ++ [Char.ofNat ch.toNat]⟩)

def xsputn (sb : StringStreambuf) (s : List Char) : Int × StringStreambuf := (s.length,⟨sb.buffer ++ s⟩)

def sync (sb : StringStreambuf) : Int × StringStreambuf := (-1,sb)

end StringStreambuf

structure Ostream where
  rdbuf : StringStreambuf
  badbit : Bool := false

namespace Ostream

def put (os : Ostream) (c : Char) : Ostream :=
  if os.badbit then os
  else
    let (result,rdbuf) := os.rdbuf.overflow c.toNat
    ⟨rdbuf,result = -1⟩

def write (os : Ostream) (s : List Char) : Ostream :=
  if os.badbit then os
  else
    let (count,rdbuf) := os.rdbuf.xsputn s
    ⟨rdbuf,count ≠ s.length⟩

def flush (os : Ostream) : Ostream :=
  if os.badbit then os
  else
    let (result,rdbuf) := os.rdbuf.sync
    ⟨rdbuf,result = -1⟩

def endl (os : Ostream) : Ostream := (os.put '\n').flush

end Ostream

inductive Output
  | put (c : Char)
  | write (s : List Char)
  | flush
  | endl

namespace Output

def perform (os : Ostream) : Output → Ostream
  | put c => os.put c
  | write s => os.write s
  | flush => os.flush
  | endl => os.endl

def performAll (os : Ostream) (outputs : List Output) : Ostream := outputs.foldl perform os

def chars : Output → List Char
  | put c => [c]
  | write s => s
  | flush => []
  | endl => ['\n']

def written (outputs : List Output) : List Char := outputs.flatMap chars

def flushes : Output → Bool
  | flush | endl => true
  | put _ | write _ => false

/-- What comes after the first flush. -/
def behindFlush : List Output → List Output
  | [] => []
  | output :: outputs => if output.flushes then outputs else behindFlush outputs

/-- The target ends with all that was written. -/
def Recorded (initial : List Char) (outputs : List Output) : Prop :=
  (performAll {rdbuf := ⟨initial⟩} outputs).rdbuf.buffer = initial ++ written outputs

theorem performAll_bad {os : Ostream} (bad : os.badbit = true) (outputs : List Output) : performAll os outputs = os := by
  induction outputs with
  | nil => rfl
  | cons output outputs ih =>
    have still : perform os output = os := by
      cases output <;> simp [perform,Ostream.put,Ostream.write,Ostream.flush,Ostream.endl,bad]
    rw [performAll,List.foldl_cons,still]
    exact ih

theorem put_good (buffer : List Char) (c : Char) : Ostream.put ⟨⟨buffer⟩,false⟩ c = ⟨⟨buffer ++ [c]⟩,false⟩ := by
  have code : ((c.toNat : Int) = -1) = False := by simp
  simp [Ostream.put,StringStreambuf.overflow,code]

/-- An output to a good stream is recorded, and only a flush breaks the stream. -/
theorem perform_good (buffer : List Char) (output : Output) :
    perform ⟨⟨buffer⟩,false⟩ output = ⟨⟨buffer ++ output.chars⟩,output.flushes⟩ := by
  cases output with
  | put c => exact put_good buffer c
  | write s => simp [perform,Ostream.write,StringStreambuf.xsputn,chars,flushes]
  | flush => simp [perform,Ostream.flush,StringStreambuf.sync,chars,flushes]
  | endl =>
    rw [perform,Ostream.endl,put_good]
    simp [Ostream.flush,StringStreambuf.sync,chars,flushes]

/-- What is missing in the target is what comes after the first flush. -/
theorem performAll_good (buffer : List Char) (outputs : List Output) :
    (performAll ⟨⟨buffer⟩,false⟩ outputs).rdbuf.buffer ++ written (behindFlush outputs) = buffer ++ written outputs := by
  induction outputs generalizing buffer with
  | nil => rfl
  | cons output outputs ih =>
    have split : written (output :: outputs) = output.chars ++ written outputs := List.flatMap_cons
    rw [performAll,List.foldl_cons,perform_good,← performAll,behindFlush,split,← List.append_assoc]
    split
    next flushed =>
      rw [performAll_bad flushed]
    next open' =>
      rw [Bool.not_eq_true] at open'
      rw [open']
      exact ih _

theorem recorded_of_behind (initial : List Char) (outputs : List Output) :
    Recorded initial outputs ↔ written (behindFlush outputs) = [] := by
  rw [Recorded,← performAll_good initial outputs]
  exact List.self_eq_append_right

end Output

/-- The texts, each by its own `<<`, and `std::endl`. -/
def Output.line (texts : List (List Char)) : List Output := texts.map .write ++ [.endl]

def CallRecord.dump (record : CallRecord) : List Output :=
  Output.line ["CallRecord start".toList] ++
    (record.legs.values.flatMap fun leg =>
      Output.line ["leg: ".toList,leg.uniqueid.toList," ".toList,leg.startTime.toList]) ++
    (record.links.flatMap fun link =>
      Output.line ["link: ".toList,link.uniqueidOrig.toList," -> ".toList,link.uniqueidTerm.toList," ".toList,
        link.linkStartTime.toList]) ++
    Output.line ["CallRecord stop with legs: (".toList,Sql.decimal record.legs.values.length,") links: (".toList,
      Sql.decimal record.links.length,")".toList]

/-- The arguments as the texts that they are written as. -/
def concat (args : List (List Char)) : List Char :=
  (Output.performAll {rdbuf := ⟨[]⟩} (args.map .write)).rdbuf.buffer

namespace Output

theorem concat_eq (args : List (List Char)) : concat args = args.flatten := by
  have recorded : Recorded [] (args.map .write) := by
    rw [recorded_of_behind]
    induction args with
    | nil => rfl
    | cons s args ih => exact ih
  refine recorded.trans ?_
  rw [List.nil_append,written,List.flatMap_map]
  exact List.flatMap_id

theorem mem_written {output : Output} {outputs : List Output} {c : Char} (mem : output ∈ outputs) (char : c ∈ output.chars) :
    c ∈ written outputs :=
  List.mem_flatMap.mpr ⟨output,mem,char⟩

theorem dump_behind (record : CallRecord) : written (behindFlush record.dump) ≠ [] := by
  have last : Output.write ")".toList ∈ behindFlush record.dump := by
    simp [CallRecord.dump,line,behindFlush,flushes]
  exact List.ne_nil_of_mem (mem_written last (List.mem_singleton_self ')'))

/-- All outputs are recorded exactly if nothing is written after a flush, so a dump is never recorded. -/
theorem recorded_iff (initial : List Char) (outputs : List Output) (record : CallRecord) :
    (Recorded initial outputs ↔ written (behindFlush outputs) = []) ∧ ¬Recorded initial record.dump :=
  ⟨recorded_of_behind initial outputs,fun recorded => dump_behind record ((recorded_of_behind _ _).mp recorded)⟩

theorem silenced : ¬∀ (initial : List Char) (outputs : List Output), Recorded initial outputs := by
  intro recorded
  exact absurd (recorded [] [.write "one".toList,.endl,.write "two".toList]) (by unfold Recorded; decide)

end Output
end Call45Aggr
