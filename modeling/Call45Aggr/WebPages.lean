import Call45Aggr.Library.Delimited
import Call45Aggr.Library.Sorting
import Call45Aggr.UrlQuery

/-! The pages of the web server: which of them answers a request, and what `handle_request`
makes of a request and of the answer. -/
namespace Call45Aggr.Web
open Library

/-- A request as it is read from a connection; header names are numbers of `http::field`. -/
structure Message where
  fields : List (Nat × Bytes) := []
  target : Bytes
  body : Bytes := []
  method : Nat := 0
  version : Nat := 11
  keepAlive : Bool := true
  deriving DecidableEq

structure HttpRequest where
  fields : List (Nat × Bytes)
  path : Bytes
  body : Bytes
  method : Nat
  parameters : SortedMap Bytes Bytes

structure HttpResponse where
  fields : List (Bytes × Bytes) := []
  body : Bytes
  mimeType : Bytes
  code : Nat := 200
  deriving DecidableEq

/-- What is written to a connection. -/
structure Answer where
  code : Nat
  version : Nat
  headers : List (Bytes × Bytes)
  keepAlive : Bool
  body : Bytes
  deriving DecidableEq

/-- All of the texts are ASCII. -/
def bytes (text : String) : Bytes := text.toList.map Char.toUInt8

def errorResponse (code : Nat) (reason : String) : HttpResponse :=
  {mimeType := bytes "application/xml",code,body := bytes ("<error>" ++ reason ++ "</error>")}

def notFound (reason : String) : HttpResponse := errorResponse 404 reason

def serverError (reason : String) : HttpResponse := errorResponse 500 reason

/-- A page; `none` is an exception. -/
abbrev View := HttpRequest → Option HttpResponse

def slash : UInt8 := '/'.toUInt8

/-- The url up to its last slash. Without one the length of the text would be below zero, for which
the constructor of the text throws. -/
def canonizeUrl (url : Bytes) : Option Bytes :=
  match field slash url.reverse with
  | (_,_ :: path) => some path.reverse
  | (_,[]) => none

/-- `add`: a later page takes the place of an earlier one of the same url. -/
def add (views : Bytes → Option View) (url : Bytes) (page : View) : Bytes → Option View :=
  fun path => if path = url then some page else views path

def lookup (views : Bytes → Option View) (path canonized : Bytes) : Option View :=
  (views path).or (views canonized)

/-- `aggregated::handle`; both paths are made before the first of them is looked up. -/
def handle (views : Bytes → Option View) (request : HttpRequest) : HttpResponse :=
  match canonizeUrl request.path with
  | none => serverError "Internal server error."
  | some canonized =>
    match lookup views request.path canonized with
    | some page => (page request).getD (serverError "Internal server error.")
    | none => notFound "Page not found"

/-- The urls of `create_default_handler`. -/
def urls : List String :=
  ["/favicon.ico","/config","/health","/","/log","/sync","/state","/data","/cyclic_task","/online","/time",
    "/merge","/leg","/records","/link"]

def defaultHandler (pages : String → View) : Bytes → Option View :=
  urls.foldl (fun views url => add views (bytes url) (pages url)) fun _ => none

def httpRequest (byName : Sorting fun header : Nat × Bytes => header.1) (req : Message) : HttpRequest where
  fields := byName.run req.fields
  path := (parseUrl req.target).1
  parameters := (parseUrl req.target).2
  body := req.body
  method := req.method

/-- The fields that the page sets follow those of the server. -/
def answer (server : Bytes) (req : Message) (response : HttpResponse) : Answer where
  code := response.code
  version := req.version
  headers := [(bytes "Server",server),(bytes "Content-Type",response.mimeType),
    (bytes "Content-Length",bytes (toString response.body.length))] ++ response.fields
  keepAlive := req.keepAlive
  body := response.body

def handleRequest (server : Bytes) (byName : Sorting fun header : Nat × Bytes => header.1)
    (views : Bytes → Option View) (req : Message) : Answer :=
  answer server req (handle views (httpRequest byName req))

/-- A path in the directory of `url`, and not in one below it. -/
def Within (url path : Bytes) : Prop := ∃ rest, slash ∉ rest ∧ path = url ++ slash :: rest

theorem canonizeUrl_within {url path : Bytes} (within : Within url path) : canonizeUrl path = some url := by
  obtain ⟨rest,last,rfl⟩ := within
  have absent : slash ∉ rest.reverse := fun member => last (List.mem_reverse.mp member)
  rw [canonizeUrl,List.reverse_append,List.reverse_cons,List.append_assoc]
  change (match field slash (rest.reverse ++ slash :: url.reverse) with
    | (_,_ :: path) => some path.reverse
    | (_,[]) => none) = some url
  rw [field_read absent]
  exact congrArg some (List.reverse_reverse url)

theorem exists_within {path : Bytes} (rooted : slash ∈ path) : ∃ url, Within url path := by
  obtain ⟨url,rest,whole,last⟩ := List.eq_append_cons_of_mem (List.mem_reverse.mpr rooted)
  refine ⟨rest.reverse,url.reverse,fun member => last (List.mem_reverse.mp member),?_⟩
  rw [← List.reverse_reverse path,whole,List.reverse_append,List.reverse_cons,List.append_assoc]
  rfl

theorem canonizeUrl_eq_none {path : Bytes} (bare : slash ∉ path) : canonizeUrl path = none := by
  have absent : ∀ c ∈ path.reverse, decide (c ≠ slash) = true := by
    intro c member
    exact decide_eq_true fun same => bare (List.mem_reverse.mp (same ▸ member))
  rw [canonizeUrl,field,List.dropWhile_eq_nil_iff.mpr absent]

theorem within_unique {url other path : Bytes} (first : Within url path) (second : Within other path) :
    url = other :=
  Option.some.inj ((canonizeUrl_within first).symm.trans (canonizeUrl_within second))

theorem foldl_add (names : List String) (pages : String → View) (distinct : (names.map bytes).Nodup)
    (views : Bytes → Option View) (path : Bytes) :
    (∀ url ∈ names, path = bytes url →
      names.foldl (fun views url => add views (bytes url) (pages url)) views path = some (pages url)) ∧
    ((∀ url ∈ names, path ≠ bytes url) →
      names.foldl (fun views url => add views (bytes url) (pages url)) views path = views path) := by
  induction names generalizing views with
  | nil => simp
  | cons first rest ih =>
    obtain ⟨absent,others⟩ := List.nodup_cons.mp distinct
    obtain ⟨own,other⟩ := ih others (add views (bytes first) (pages first))
    refine ⟨fun url member same => ?_,fun none => ?_⟩
    · rcases List.mem_cons.mp member with rfl | later
      · have unnamed : ∀ name ∈ rest, path ≠ bytes name := fun name there again =>
          absent (same ▸ again ▸ List.mem_map_of_mem there)
        rw [List.foldl_cons,other unnamed,add,if_pos same]
      · exact own url later same
    · rw [List.foldl_cons,other fun url later => none url (List.mem_cons_of_mem _ later),add,
        if_neg (none first List.mem_cons_self)]

theorem urls_distinct : (urls.map bytes).Nodup := by decide

theorem defaultHandler_page (pages : String → View) {url : String} (named : url ∈ urls) :
    defaultHandler pages (bytes url) = some (pages url) :=
  (foldl_add urls pages urls_distinct _ _).1 url named rfl

theorem defaultHandler_none (pages : String → View) {path : Bytes} (unnamed : ∀ url ∈ urls, path ≠ bytes url) :
    defaultHandler pages path = none :=
  (foldl_add urls pages urls_distinct _ path).2 unnamed

/-- The page that answers for `path`: the one of this url, else that of the directory. -/
def Served (path : Bytes) (url : String) : Prop :=
  url ∈ urls ∧ (path = bytes url ∨ (∀ other ∈ urls, path ≠ bytes other) ∧ Within (bytes url) path)

theorem served_unique {path : Bytes} (url other : String) (first : Served path url) (second : Served path other) :
    url = other := by
  obtain ⟨named,exact' | ⟨none,within⟩⟩ := first
  · obtain ⟨theirs,same | ⟨none,_⟩⟩ := second
    · exact List.inj_on_of_nodup_map urls_distinct named theirs (exact'.symm.trans same)
    · exact absurd exact' (none url named)
  · obtain ⟨theirs,same | ⟨_,below⟩⟩ := second
    · exact absurd same (none other theirs)
    · exact List.inj_on_of_nodup_map urls_distinct named theirs (within_unique within below)

theorem lookup_served (pages : String → View) {path url : Bytes} (within : Within url path) :
    (∃ name, Served path name ∧ lookup (defaultHandler pages) path url = some (pages name)) ∨
      (∀ name, ¬Served path name) ∧ lookup (defaultHandler pages) path url = none := by
  by_cases named : ∃ name ∈ urls, path = bytes name
  · obtain ⟨name,known,rfl⟩ := named
    refine .inl ⟨name,⟨known,.inl rfl⟩,?_⟩
    rw [lookup,defaultHandler_page pages known,Option.some_or]
  have unnamed : ∀ name ∈ urls, path ≠ bytes name := fun name known same => named ⟨name,known,same⟩
  rw [lookup,defaultHandler_none pages unnamed,Option.none_or]
  by_cases directory : ∃ name ∈ urls, url = bytes name
  · obtain ⟨name,known,rfl⟩ := directory
    exact .inl ⟨name,⟨known,.inr ⟨unnamed,within⟩⟩,defaultHandler_page pages known⟩
  · have other : ∀ name ∈ urls, url ≠ bytes name := fun name known same => directory ⟨name,known,same⟩
    refine .inr ⟨?_,defaultHandler_none pages other⟩
    rintro name ⟨known,same | ⟨_,below⟩⟩
    · exact unnamed name known same
    · exact other name known (within_unique within below)

/-- Every request has one answer: that of the one page of its path, that there is none, and the
internal error where the page throws or the path has no slash, so that its directory throws. -/
theorem routed (pages : String → View) (request : HttpRequest) :
    (slash ∉ request.path → handle (defaultHandler pages) request = serverError "Internal server error.") ∧
    (slash ∈ request.path →
      (∀ url, Served request.path url → handle (defaultHandler pages) request =
        ((pages url) request).getD (serverError "Internal server error.")) ∧
      ((∀ url, ¬Served request.path url) → handle (defaultHandler pages) request = notFound "Page not found")) ∧
    ∀ url other, Served request.path url → Served request.path other → url = other := by
  refine ⟨fun bare => ?_,fun rooted => ?_,served_unique⟩
  · rw [handle,canonizeUrl_eq_none bare]
  · obtain ⟨directory,within⟩ := exists_within rooted
    have answered : handle (defaultHandler pages) request =
        match lookup (defaultHandler pages) request.path directory with
        | some page => (page request).getD (serverError "Internal server error.")
        | none => notFound "Page not found" := by
      rw [handle,canonizeUrl_within within]
    rw [answered]
    obtain ⟨url,served,found⟩ | ⟨none,missing⟩ := lookup_served pages within
    · rw [found]
      refine ⟨fun other theirs => ?_,fun none => absurd served (none url)⟩
      rw [served_unique url other served theirs]
    · rw [missing]
      exact ⟨fun other theirs => absurd theirs (none other),fun _ => rfl⟩

end Call45Aggr.Web
