import Call45Aggr.SettingsFile
import Call45Aggr.OnlineWatcher

/-! The `try` block of `OnlineWatcher::run` on one notification. A character of a text stands for one
byte. `CharReader::parse` and `asString` are parameters, `none` where they throw; `run` does not look
at what `parse` returns, only at the root it leaves. -/
namespace Call45Aggr

/-- What one notification made of `data_`: the block ran to its end, an exception was caught, or
`formatDateTime` wrote outside its string. -/
inductive Handling
  | applied (data : List CallLegLinkOnline)
  | caught (data : List CallLegLinkOnline)
  | outside

def Handling.keep (it : CallLegLinkOnline) : Handling → Handling
  | applied data => applied (it :: data)
  | caught data => caught (it :: data)
  | outside => outside

def OnlineEvent.named (relname : String) : Option OnlineEvent :=
  if relname = "monitor.call_link_online.insert" then some .insert
  else if relname = "monitor.call_link_online.update" then some .update
  else if relname = "monitor.call_link_online.delete" then some .delete
  else none

section
variable (parse : String → Option Json) (asString : Json → Option String)

/-- `link[key].asString()` -/
def linkText (extra key : String) : Option String := do
  let root ← parse extra
  let link ← root.get "link"
  let value ← link.get key
  asString value

/-- The loop of an update: the fields of the first row of the pair are assigned one by one. -/
def updateRow (channameOrig channameTerm : Option String) (row : CallLegLinkOnline) :
    List CallLegLinkOnline → Handling
  | [] => .applied []
  | it :: data =>
    if row.matches it then
      match channameOrig with
      | none => .caught (it :: data)
      | some channameOrig =>
        let it := {it with channameOrig := channameOrig}
        match channameTerm with
        | none => .caught (it :: data)
        | some channameTerm =>
          let it := {it with channameTerm := channameTerm}
          .applied ({it with linkStartTime := row.linkStartTime} :: data)
    else (updateRow channameOrig channameTerm row data).keep it

/-- `row` before its event is looked at. -/
def newRow (uniqueidOrig uniqueidTerm time : String) : CallLegLinkOnline :=
  {(default : CallLegLinkOnline) with
    uniqueidOrig := uniqueidOrig
    uniqueidTerm := uniqueidTerm
    linkStartTime := time}

/-- `link_start_time` is converted anew for each event, to the same text. -/
def handle (relname extra : String) (data : List CallLegLinkOnline) : Handling :=
  let text := linkText parse asString extra
  match text "uniqueid_orig", text "uniqueid_term", text "link_start_time" with
  | some uniqueidOrig, some uniqueidTerm, some date =>
    match formatDateTime date with
    | none => .outside
    | some time =>
      let row := newRow uniqueidOrig uniqueidTerm time
      match OnlineEvent.named relname with
      | some .insert =>
        match text "channame_orig", text "channame_term" with
        | some channameOrig, some channameTerm =>
          .applied (data ++ [{row with channameOrig := channameOrig, channameTerm := channameTerm}])
        | _, _ => .caught data
      | some .update => updateRow (text "channame_orig") (text "channame_term") row data
      | some .delete => .applied (data.eraseP row.matches)
      | none => .applied data
  | _, _, _ => .caught data

/-- The row a notification is about. -/
def linkRow (extra : String) : CallLegLinkOnline :=
  let text (key : String) := (linkText parse asString extra key).getD ""
  ⟨text "uniqueid_orig",text "channame_orig",text "uniqueid_term",text "channame_term",
    text "link_start_time"⟩

/-- In bounds, and the whole change or none. -/
def Handling.Atomic (relname extra : String) (data : List CallLegLinkOnline) : Handling → Prop
  | applied after =>
    match OnlineEvent.named relname with
    | some event => Notification.apply ⟨event,linkRow parse asString extra⟩ data = some after
    | none => after = data
  | caught after => after = data
  | outside => False

/-- The text of the time is long enough where it is formatted, and an update that finds its row does
not lose `channame_term` after a new `channame_orig`. -/
def Applicable (relname extra : String) (data : List CallLegLinkOnline) : Prop :=
  ∀ uniqueidOrig uniqueidTerm date,
    linkText parse asString extra "uniqueid_orig" = some uniqueidOrig →
    linkText parse asString extra "uniqueid_term" = some uniqueidTerm →
    linkText parse asString extra "link_start_time" = some date →
    10 < date.length ∧
      (OnlineEvent.named relname = some .update →
        ∀ it, data.find? (fun it => decide (it.pair = (uniqueidOrig,uniqueidTerm))) = some it →
        ∀ channameOrig, linkText parse asString extra "channame_orig" = some channameOrig →
          linkText parse asString extra "channame_term" = none → it.channameOrig = channameOrig)

end

@[simp] theorem keep_applied (it : CallLegLinkOnline) (data : List CallLegLinkOnline) :
    (Handling.applied data).keep it = .applied (it :: data) := rfl

@[simp] theorem keep_caught (it : CallLegLinkOnline) (data : List CallLegLinkOnline) :
    (Handling.caught data).keep it = .caught (it :: data) := rfl

theorem matches_eq (row : CallLegLinkOnline) : row.matches = fun it => decide (it.pair = row.pair) := by
  funext it
  rw [Bool.eq_iff_iff,matches_iff,decide_eq_true_iff]

section
variable (row : CallLegLinkOnline) (data : List CallLegLinkOnline)

theorem find?_missing {it : CallLegLinkOnline} (missing : (it :: data).find? row.matches = none) :
    row.matches it = false ∧ data.find? row.matches = none := by
  cases same : row.matches it with
  | true => simp [same] at missing
  | false => exact ⟨rfl,by simpa [same] using missing⟩

theorem updateRow_missing (channameOrig channameTerm : Option String)
    (missing : data.find? row.matches = none) :
    updateRow channameOrig channameTerm row data = .applied data := by
  induction data with
  | nil => rfl
  | cons it data ih =>
    obtain ⟨differs,missing⟩ := find?_missing row data missing
    simp [updateRow,differs,ih missing]

theorem updateFirst_missing (missing : data.find? row.matches = none) : updateFirst row data = data := by
  induction data with
  | nil => rfl
  | cons it data ih =>
    obtain ⟨differs,missing⟩ := find?_missing row data missing
    simp [updateFirst,differs,ih missing]

theorem updateRow_thrown (channameTerm : Option String) {it : CallLegLinkOnline}
    (found : data.find? row.matches = some it) : updateRow none channameTerm row data = .caught data := by
  induction data with
  | nil => cases found
  | cons first data ih =>
    cases same : row.matches first with
    | true => simp [updateRow,same]
    | false => simp [updateRow,same,ih (by simpa [same] using found)]

/-- The row found keeps the new `channame_orig` when `channame_term` throws. -/
theorem updateRow_torn (channameOrig : String) {it : CallLegLinkOnline}
    (found : data.find? row.matches = some it) :
    ∃ after, updateRow (some channameOrig) none row data = .caught after ∧
      (after = data ↔ it.channameOrig = channameOrig) := by
  induction data with
  | nil => cases found
  | cons first data ih =>
    cases same : row.matches first with
    | true =>
      have first_eq : first = it := by simpa [same] using found
      subst first_eq
      refine ⟨{first with channameOrig := channameOrig} :: data,by simp [updateRow,same],?_⟩
      rw [List.cons.injEq]
      constructor
      · rintro ⟨kept,-⟩
        exact (congrArg CallLegLinkOnline.channameOrig kept).symm
      · intro kept
        rw [← kept]
        exact ⟨rfl,rfl⟩
    | false =>
      obtain ⟨after,updated,kept⟩ := ih (by simpa [same] using found)
      refine ⟨first :: after,by simp [updateRow,same,updated],?_⟩
      simpa using kept

theorem updateRow_whole (channameOrig channameTerm : String) :
    updateRow (some channameOrig) (some channameTerm) row data =
      .applied (updateFirst {row with channameOrig := channameOrig, channameTerm := channameTerm} data) := by
  induction data with
  | nil => rfl
  | cons it data ih =>
    have matches_eq' : CallLegLinkOnline.matches
        {row with channameOrig := channameOrig, channameTerm := channameTerm} = row.matches := rfl
    cases same : row.matches it <;> simp [updateRow,updateFirst,matches_eq',same,ih]

end

theorem formatDateTime_isSome (date : String) : (formatDateTime date).isSome ↔ 10 < date.length := by
  unfold formatDateTime
  split <;> simp_all

section
variable {parse : String → Option Json} {asString : Json → Option String} {extra : String}
  {uniqueidOrig uniqueidTerm date : String}
  (first : linkText parse asString extra "uniqueid_orig" = some uniqueidOrig)
  (second : linkText parse asString extra "uniqueid_term" = some uniqueidTerm)
  (third : linkText parse asString extra "link_start_time" = some date)
include first second third

theorem applicable_iff (relname : String) (data : List CallLegLinkOnline) :
    Applicable parse asString relname extra data ↔
      10 < date.length ∧
        (OnlineEvent.named relname = some .update →
          ∀ it, data.find? (fun it => decide (it.pair = (uniqueidOrig,uniqueidTerm))) = some it →
          ∀ channameOrig, linkText parse asString extra "channame_orig" = some channameOrig →
            linkText parse asString extra "channame_term" = none → it.channameOrig = channameOrig) := by
  simp [Applicable,first,second,third]

theorem handle_eq {time : String} (formatted : formatDateTime date = some time) (relname : String)
    (data : List CallLegLinkOnline) : handle parse asString relname extra data =
      let row := newRow uniqueidOrig uniqueidTerm time
      match OnlineEvent.named relname with
      | some .insert =>
        match linkText parse asString extra "channame_orig",
          linkText parse asString extra "channame_term" with
        | some channameOrig, some channameTerm =>
          .applied (data ++ [{row with channameOrig := channameOrig, channameTerm := channameTerm}])
        | _, _ => .caught data
      | some .update => updateRow (linkText parse asString extra "channame_orig")
          (linkText parse asString extra "channame_term") row data
      | some .delete => .applied (data.eraseP row.matches)
      | none => .applied data := by
  simp only [handle,first,second,third,formatted]

theorem linkRow_eq : linkRow parse asString extra =
    ⟨uniqueidOrig,(linkText parse asString extra "channame_orig").getD "",uniqueidTerm,
      (linkText parse asString extra "channame_term").getD "",date⟩ := by
  simp [linkRow,first,second,third]

theorem apply_linkRow {time : String} (formatted : formatDateTime date = some time)
    (event : OnlineEvent) (data : List CallLegLinkOnline) :
    Notification.apply ⟨event,linkRow parse asString extra⟩ data =
      let row : CallLegLinkOnline := {newRow uniqueidOrig uniqueidTerm time with
        channameOrig := (linkText parse asString extra "channame_orig").getD ""
        channameTerm := (linkText parse asString extra "channame_term").getD ""}
      match event with
      | .insert => some (data ++ [row])
      | .update => some (updateFirst row data)
      | .delete => some (data.eraseP row.matches) := by
  simp only [Notification.apply,linkRow_eq first second third,formatted]
  cases event <;> rfl

/-- Only an update can be torn. -/
theorem handle_update_iff {time : String} (formatted : formatDateTime date = some time)
    {relname : String} (event : OnlineEvent.named relname = some .update) (data : List CallLegLinkOnline) :
    (handle parse asString relname extra data).Atomic parse asString relname extra data ↔
      ∀ it, data.find? (fun it => decide (it.pair = (uniqueidOrig,uniqueidTerm))) = some it →
      ∀ channameOrig, linkText parse asString extra "channame_orig" = some channameOrig →
        linkText parse asString extra "channame_term" = none → it.channameOrig = channameOrig := by
  let row := newRow uniqueidOrig uniqueidTerm time
  have finds : row.matches = fun it => decide (it.pair = (uniqueidOrig,uniqueidTerm)) := matches_eq row
  have handled : handle parse asString relname extra data =
      updateRow (linkText parse asString extra "channame_orig")
        (linkText parse asString extra "channame_term") row data := by
    rw [handle_eq first second third formatted,event]
  rw [handled,← finds]
  cases found : data.find? row.matches with
  | none =>
    simp only [updateRow_missing row data _ _ found,Handling.Atomic,event,
      apply_linkRow first second third formatted]
    refine iff_of_true (congrArg some (updateFirst_missing _ data found)) ?_
    intro it none_eq
    cases none_eq
  | some it =>
    cases orig : linkText parse asString extra "channame_orig" with
    | none => simp [updateRow_thrown row data _ found,Handling.Atomic]
    | some channameOrig =>
      cases term : linkText parse asString extra "channame_term" with
      | none =>
        obtain ⟨after,updated,kept⟩ := updateRow_torn row data channameOrig found
        simpa [updated,Handling.Atomic] using kept
      | some channameTerm =>
        simp only [updateRow_whole,Handling.Atomic,event,apply_linkRow first second third formatted,
          orig,term]
        simp [row]

theorem handle_other {time : String} (formatted : formatDateTime date = some time) {relname : String}
    (other : OnlineEvent.named relname ≠ some .update) (data : List CallLegLinkOnline) :
    (handle parse asString relname extra data).Atomic parse asString relname extra data := by
  rw [handle_eq first second third formatted]
  match event : OnlineEvent.named relname with
  | none => simp [Handling.Atomic,event]
  | some .insert =>
    cases orig : linkText parse asString extra "channame_orig" <;>
      cases term : linkText parse asString extra "channame_term" <;>
      simp [Handling.Atomic,event,apply_linkRow first second third formatted,orig,term]
  | some .update => exact absurd event other
  | some .delete =>
    simp only [Handling.Atomic,event,apply_linkRow first second third formatted]
    rfl

end

/-- A notification is handled in bounds and as a whole just where it is applicable. -/
theorem handle_atomic_iff (parse : String → Option Json) (asString : Json → Option String)
    (relname extra : String) (data : List CallLegLinkOnline) :
    (handle parse asString relname extra data).Atomic parse asString relname extra data ↔
      Applicable parse asString relname extra data := by
  cases first : linkText parse asString extra "uniqueid_orig" with
  | none => simp [handle,first,Handling.Atomic,Applicable]
  | some uniqueidOrig =>
    cases second : linkText parse asString extra "uniqueid_term" with
    | none => simp [handle,first,second,Handling.Atomic,Applicable]
    | some uniqueidTerm =>
      cases third : linkText parse asString extra "link_start_time" with
      | none => simp [handle,first,second,third,Handling.Atomic,Applicable]
      | some date =>
        rw [applicable_iff first second third]
        cases formatted : formatDateTime date with
        | none =>
          have short : ¬10 < date.length := by rw [← formatDateTime_isSome,formatted]; simp
          simp [handle,first,second,third,formatted,Handling.Atomic,short]
        | some time =>
          have long : 10 < date.length := by rw [← formatDateTime_isSome,formatted]; rfl
          simp only [long,true_and]
          by_cases update : OnlineEvent.named relname = some .update
          · simp only [update,forall_const]
            exact handle_update_iff first second third formatted update data
          · refine iff_of_true (handle_other first second third formatted update data) ?_
            intro event
            exact absurd event update

/-- An update whose `channame_term` is a list. -/
def tornPayload : String :=
  "\x7b\"link\":\x7b\"uniqueid_orig\":\"1.1\",\"uniqueid_term\":\"1.2\",\"link_start_time\":" ++
    "\"2026-01-01T00:00:00\",\"channame_orig\":\"SIP/c\",\"channame_term\":[]\x7d\x7d"

/-- The root that `parse` leaves for `tornPayload`, and null for what is no JSON. -/
def parsePayload (extra : String) : Option Json :=
  if extra = tornPayload then
    some (.object [("link",.object [("channame_orig",.string "SIP/c"),("channame_term",.array []),
      ("link_start_time",.string "2026-01-01T00:00:00"),("uniqueid_orig",.string "1.1"),
      ("uniqueid_term",.string "1.2")])])
  else some .null

/-- The empty payload writes past the end of an empty time; the other one is applied in part. -/
theorem not_atomic :
    ¬(handle parsePayload (Json.text fun _ => "") "monitor.call_link_online.delete" "" []).Atomic
      parsePayload (Json.text fun _ => "") "monitor.call_link_online.delete" "" [] ∧
    ¬(handle parsePayload (Json.text fun _ => "") "monitor.call_link_online.update" tornPayload
      [⟨"1.1","SIP/a","1.2","SIP/b",""⟩]).Atomic parsePayload (Json.text fun _ => "")
        "monitor.call_link_online.update" tornPayload [⟨"1.1","SIP/a","1.2","SIP/b",""⟩] := by
  constructor
  · have blank : parsePayload "" = some .null := if_neg (by decide +kernel)
    simp [handle,linkText,blank,Json.get,Json.text,formatDateTime,Handling.Atomic]
  · have long : 10 < "2026-01-01T00:00:00".length := by decide +kernel
    simp [handle,linkText,parsePayload,Json.get,Json.lookup,Json.text,formatDateTime,long,
      OnlineEvent.named,updateRow,newRow,CallLegLinkOnline.matches,Handling.Atomic]

end Call45Aggr
