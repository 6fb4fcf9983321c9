import TagPrompt.Search.Positions
import TagPrompt.Search.Query

/-! Answering queries. A query is checked against the tag index, looked up in the cache, and
otherwise answered from the position sets of its tags, which are fetched all at once and may arrive
in any order. The cache holds one answer, and only a query all of whose fetches have arrived changes
it. -/

namespace TagPrompt

/-- Why a query has no answer. -/
inductive SearchError
  | tagNotFound (tag : Text)
  /-- Tags are unwanted but none is wanted. -/
  | nothingWanted
  | noMatches
  | fetch (error : FetchError)
  | crashed
  deriving DecidableEq, Repr

def SearchError.message : SearchError → String
  | .tagNotFound tag => "tag " ++ Text.quoted tag ++ " not found"
  | .nothingWanted => "invalid query: cannot exclude without at least one include tag"
  | .noMatches => "no prompts match the search tags"
  | .fetch error => "fetch failed: " ++ error.message
  | .crashed => "position fetch task failed"

/-- What a search tells while it runs. -/
inductive Progress
  | searching (percent : Nat)
  | complete (matching : Nat)
  deriving DecidableEq, Repr

def Progress.message : Progress → String
  | .searching percent => "Searching prompts... (" ++ toString percent ++ "%)"
  | .complete matching => "Search complete: " ++ toString matching ++ " matching prompts"

/-! ### The cache -/

/-- The answer to a query under the key of the query. -/
structure CachedAnswer where
  key : Text
  offsets : List Offset
  deriving DecidableEq, Repr

/-- The last answer, if there is one. -/
abbrev AnswerCache := Option CachedAnswer

namespace AnswerCache

/-- The offsets remembered under a key. -/
def get? (cache : AnswerCache) (key : Text) : Option (List Offset) :=
  match cache with
  | some cached => if cached.key = key then some cached.offsets else none
  | none => none

/-- The key of the answer that is remembered. -/
def key? (cache : AnswerCache) : Option Text := cache.map CachedAnswer.key

end AnswerCache

/-! ### From a query to its fetches -/

/-- Which side of a query a tag is on. -/
inductive Role
  | wanted
  | unwanted
  deriving DecidableEq, Repr

/-- One fetch of a search. -/
structure Job where
  role : Role
  entry : IndexEntry
  deriving DecidableEq, Repr

/-- The entry of a tag that has to be there. -/
def TagIndex.lookup (index : TagIndex) (tag : Text) : Except SearchError IndexEntry :=
  match index.get? tag with
  | some entry => .ok entry
  | none => .error (.tagNotFound tag)

def TagIndex.jobFor (index : TagIndex) (role : Role) (tag : Text) : Except SearchError Job :=
  (index.lookup tag).map (Job.mk role)

/-- The fetches for all tags of a query, wanted tags first; the first tag that is missing is the
error. -/
def TagIndex.jobs (index : TagIndex) (q : Query) : Except SearchError (List Job) := do
  let wanted ← q.wanted.mapM (index.jobFor .wanted)
  let unwanted ← q.unwanted.mapM (index.jobFor .unwanted)
  return wanted ++ unwanted

/-- An answer that has to hold something. -/
def nonEmpty (offsets : List Offset) : Except SearchError (List Offset) :=
  if offsets.isEmpty then .error .noMatches else .ok offsets

/-- What is known about a query before anything is fetched. -/
inductive Plan
  /-- The answer needs no fetch. -/
  | settled (outcome : Except SearchError (List Offset))
  /-- These fetches are needed. -/
  | fetch (jobs : List Job)

/-- Checks a query and looks it up. -/
def plan (index : TagIndex) (cache : AnswerCache) (q : Query) : Plan :=
  if q.isEmpty then .settled (.ok [])
  else if q.wanted.isEmpty then .settled (.error .nothingWanted)
  else
    match index.jobs q with
    | .error error => .settled (.error error)
    | .ok jobs =>
        match cache.get? q.key with
        | some offsets => .settled (nonEmpty offsets)
        | none => .fetch jobs

/-! ### From fetches to an answer -/

/-- A fetch that has ended. -/
structure Arrival where
  role : Role
  fetched : Fetched
  deriving DecidableEq, Repr

/-- What the fetches that have arrived so far contribute. -/
structure Gathered where
  wanted : List PositionSet := []
  unwanted : PositionSet := .empty
  arrived : Nat := 0
  deriving DecidableEq, Repr

def Gathered.add (g : Gathered) (role : Role) (set : PositionSet) : Gathered :=
  match role with
  | .wanted => { g with wanted := g.wanted ++ [set], arrived := g.arrived + 1 }
  | .unwanted => { g with unwanted := g.unwanted.union set, arrived := g.arrived + 1 }

/-- Takes arrivals in one after another, out of `total`. The first one without positions ends the
search. -/
def gather (total : Nat) (g : Gathered) : List Arrival →
    List Progress × Except SearchError Gathered
  | [] => ([], .ok g)
  | ⟨_, .failed error⟩ :: _ => ([], .error (.fetch error))
  | ⟨_, .crashed⟩ :: _ => ([], .error .crashed)
  | ⟨role, .positions set⟩ :: arrivals =>
      let g := g.add role set
      let (progress, result) := gather total g arrivals
      (.searching (g.arrived * 100 / total) :: progress, result)

/-- The offsets in every wanted set and in no unwanted one. The smallest wanted set comes first, so
that the intersection stays small. -/
def combine (wanted : List PositionSet) (unwanted : PositionSet) : PositionSet :=
  match wanted.mergeSort fun s t => s.size ≤ t.size with
  | [] => .empty
  | first :: rest => (rest.foldl PositionSet.inter first).diff unwanted

/-- The answer that everything gathered gives. -/
def Gathered.answer (g : Gathered) : List Offset := (combine g.wanted g.unwanted).values

/-- How a query was answered: the outcome, the cache behind it, what was told meanwhile, what was
read, and for how long. -/
structure Resolution where
  outcome : Except SearchError (List Offset)
  cache : AnswerCache
  progress : List Progress := []
  reads : List ByteRange := []
  ended : Millis := 0

/-- Answers a query from its fetches, in the order in which they arrive. -/
def conclude (cache : AnswerCache) (q : Query) (arrivals : List Arrival) : Resolution :=
  match gather arrivals.length {} arrivals with
  | (progress, .error error) => { outcome := .error error, cache, progress }
  | (progress, .ok gathered) =>
      let offsets := gathered.answer
      { outcome := nonEmpty offsets
        cache := some ⟨q.key, offsets⟩
        progress := progress ++ [.complete offsets.length] }

/-! ### Fetching from a source -/

/-- The tag index, the source of the position table, and how long a read may take. -/
structure Resolver where
  index : TagIndex
  positions : ByteSource
  limit : Millis

/-- A fetch that has ended, and when. -/
structure TimedArrival where
  arrival : Arrival
  time : Millis

/-- Runs a fetch that starts at time zero. -/
def Resolver.run (r : Resolver) (job : Job) : TimedArrival :=
  let (fetched, time) := fetchPositions r.positions r.limit job.entry
  ⟨⟨job.role, fetched⟩, time⟩

def TimedArrival.succeeded (t : TimedArrival) : Bool :=
  match t.arrival.fetched with
  | .positions _ => true
  | _ => false

/-- When a search over arrivals ends: with the first that has no positions, or with the last. -/
def endOf : List TimedArrival → Millis
  | [] => 0
  | [t] => t.time
  | t :: next :: rest => if t.succeeded then endOf (next :: rest) else t.time

/-- Answers a query. Fetches start together and arrive in the order of their times, those of one
time in the order of the query. -/
def Resolver.resolve (r : Resolver) (cache : AnswerCache) (q : Query) : Resolution :=
  match plan r.index cache q with
  | .settled outcome => { outcome, cache }
  | .fetch jobs =>
      let timed := (jobs.map r.run).mergeSort fun s t => s.time ≤ t.time
      { conclude cache q (timed.map TimedArrival.arrival) with
        reads := jobs.filterMap fun job => readFor? job.entry
        ended := endOf timed }

/-- What came of a query that had only some time: whether it was given up, the cache behind it, what
was read, and how long each read could go on. -/
structure Trial where
  dropped : Bool
  cache : AnswerCache
  reads : List ByteRange := []
  span : Millis := 0

/-- Starts to answer a query and gives up at a time. A query that needs no fetch is answered at
once; one that needs fetches begins them behind that, so it can be given up before its first read.
-/
def Resolver.abandon (r : Resolver) (cache : AnswerCache) (q : Query) (time : Millis) : Trial :=
  match plan r.index cache q with
  | .settled _ => { dropped := false, cache }
  | .fetch _ =>
      let resolution := r.resolve cache q
      if resolution.ended < time then
        { dropped := false, cache := resolution.cache, reads := resolution.reads, span := r.limit }
      else if time = 0 then { dropped := true, cache }
      else { dropped := true, cache, reads := resolution.reads, span := time - 1 }

end TagPrompt
