import AccessStack.Units

/-!
# Complete extractions

`BrowserExtractionCompletenessService.extract` reads a page, scrolls it to its
end, merges what it reads, and goes on to the next page while it may. What the
browser shows is given look by look: each pass of a loop sees a probe, what is
read and the clock. A number of the browser is of any type with the operations
that are used.
-/

set_option autoImplicit false

namespace AccessStack.Extraction
open AccessStack.Units

section Values

inductive BrowserExtractionFormat where
  | text | html | json
  deriving DecidableEq

/-- An object with a text: its other fields have the length of their JSON
texts, and none when they have no JSON text. -/
structure TextRecord where
  text : List UInt16
  fields : List (List UInt16 × Option ℕ)
  deriving DecidableEq

/-- What a read returns. Other values are known by the length of their JSON
texts, and by being null or undefined. -/
inductive Value where
  | string (text : List UInt16)
  | record (value : TextRecord)
  | other (nullish : Bool) (bytes : ℕ)
  deriving DecidableEq

def escapedUnit (u : UInt16) : ℕ :=
  if u = 0x22 ∨ u = 0x5c then 2
  else if u = 8 ∨ u = 9 ∨ u = 10 ∨ u = 12 ∨ u = 13 then 2
  else if u < 0x20 then 6
  else if isHigh u || isLow u then 6
  else unitBytes u

/-- The bytes of a string between the quotation marks of its JSON text. -/
def escapedBytes : List UInt16 → ℕ
  | [] => 0
  | [u] => escapedUnit u
  | u::v::us => if isHigh u && isLow v then 4 + escapedBytes us else escapedUnit u + escapedBytes (v::us)

/-- `JSON.stringify` leaves out the fields without a JSON text. The text field
has seven bytes before its value. -/
def recordBytes (r : TextRecord) : ℕ :=
  2 + 7 + (2 + escapedBytes r.text) +
    (r.fields.filterMap fun field => field.2.map fun bytes => 1 + (2 + escapedBytes field.1) + 1 + bytes).sum

def valueBytes : Value → ℕ
  | .string text => byteLength text
  | .record r => recordBytes r
  | .other _ bytes => bytes

def truncateString (value : List UInt16) (maxBytes : ℕ) : List UInt16 :=
  if byteLength value ≤ maxBytes then value
  else value.take (bisect (fun n => byteLength (value.take n) ≤ maxBytes) value.length 0 value.length)

def overhead (r : TextRecord) : ℕ := recordBytes { r with text := [] }

def truncateValue (value : Value) (format : BrowserExtractionFormat) (maxBytes : ℕ) : Value :=
  match value, format with
  | .string text, .text => .string (truncateString text maxBytes)
  | .string text, .html => .string (truncateString text maxBytes)
  | .record r, .json => .record { r with text := truncateString r.text (max 1 (maxBytes - overhead r)) }
  | value, _ => value

/-- The line feed. -/
def newline : UInt16 := 10

def overlaps (currentLines nextLines : List (List UInt16)) (overlap : ℕ) : Bool :=
  currentLines.drop (currentLines.length - overlap) = nextLines.take overlap

def mergeOrderedText (current next : List UInt16) : List UInt16 :=
  if current = [] then next
  else if next = [] ∨ current = next then current
  else if current <+: next then next
  else if next <:+ current then current
  else
    let currentLines := current.splitOn newline
    let nextLines := next.splitOn newline
    let maxOverlap := min (min currentLines.length nextLines.length) 200
    match (List.range maxOverlap).reverse.find? fun n => overlaps currentLines nextLines (n + 1) with
    | some n => [newline].intercalate (currentLines ++ nextLines.drop (n + 1))
    | none => current ++ newline :: next

/-- The fields of an object, those of the next one in their place or behind. -/
def spread (current next : List (List UInt16 × Option ℕ)) : List (List UInt16 × Option ℕ) :=
  current.map (fun field => (next.find? fun other => other.1 = field.1).getD field) ++
    next.filter fun field => field.1 ∉ current.map Prod.fst

def mergeWithinPage (current next : Value) (format : BrowserExtractionFormat) : Value :=
  match format, current, next with
  | .text, .string current, .string next => .string (mergeOrderedText current next)
  | .json, .record current, .record next =>
    .record ⟨mergeOrderedText current.text next.text, spread current.fields next.fields⟩
  | _, _, next => next

def Value.asString : Value → Option (List UInt16)
  | .string text => some text
  | _ => none

def Value.orElse (value fallback : Value) : Value :=
  match value with
  | .other true _ => fallback
  | value => value

def combinePages (values : List Value) (format : BrowserExtractionFormat) : Value :=
  let empty : Value := if format = .json then .other false 2 else .string []
  match values with
  | [] => empty
  | [value] => value.orElse empty
  | first::rest =>
    match format, (first::rest).mapM Value.asString with
    | .text, some texts => .string ([newline, newline].intercalate texts)
    | _, _ => (first::rest).getLast (by simp)

end Values

section Request

inductive BrowserExtractionCompletionMode where
  | visible | document | documentAndSafePagination
  deriving DecidableEq

inductive Status where
  | complete | partially
  deriving DecidableEq

inductive Reason where
  | byteLimit | visibleOnly | timeLimit | scrollLimit | noProgress | virtualizedContent | paginationEnd
  | endOfDocument | paginationAvailable | unsafePagination | pageLimit | cycle
  deriving DecidableEq

structure BrowserExtractionCompleteness where
  status : Status
  reason : Reason
  mode : BrowserExtractionCompletionMode
  pages : ℕ
  scrolls : ℕ
  bytes : ℕ
  paginationAvailable : Bool
  deriving DecidableEq

structure BrowserCompletedExtraction where
  value : Value
  completeness : BrowserExtractionCompleteness
  deriving DecidableEq

/-- A limit is a finite number, or none. -/
structure BrowserExtractionCompletenessRequest where
  format : BrowserExtractionFormat
  mode : BrowserExtractionCompletionMode
  maxScrolls : Option ℚ
  maxPages : Option ℚ
  maxBytes : Option ℚ
  timeoutMs : Option ℚ
  noProgressLimit : Option ℚ

/-- `Math.max(1, Math.trunc(value))`, where a truncated number below one is
below one. -/
def positiveInteger (value : Option ℚ) (fallback : ℕ) : ℕ :=
  match value with
  | none => fallback
  | some value => max 1 ⌊value⌋.toNat

def result (request : BrowserExtractionCompletenessRequest) (pageValues : List Value) (status : Status)
    (reason : Reason) (pages scrolls : ℕ) (paginationAvailable : Bool) : BrowserCompletedExtraction :=
  let combinedValue := combinePages pageValues request.format
  let maxBytes := positiveInteger request.maxBytes 1
  let value := truncateValue combinedValue request.format maxBytes
  let outputWasTruncated := maxBytes < valueBytes combinedValue
  ⟨value, if outputWasTruncated then .partially else status,
    if outputWasTruncated then .byteLimit else reason,
    request.mode, pages, scrolls, valueBytes value, paginationAvailable⟩

end Request

section Loops

variable {N : Type} [Add N] [Sub N] [NatCast N] [LE N] [LT N] [DecidableLE N] [DecidableLT N]

structure BrowserExtractionProbe (N : Type) where
  scrollTop : N
  viewportSize : N
  scrollSize : N
  contentBytes : N
  signature : String
  nextUrl : Option String

/-- What one pass of a loop sees: whether the signal is aborted and the clock
at its beginning, the probe, what is read, the clock after the read, and what
navigating to the next page answers if it is asked. -/
structure Look (N : Type) where
  aborted : Bool
  before : N
  probe : BrowserExtractionProbe N
  value : Value
  after : N
  navigated : Bool

structure Environment (N : Type) where
  start : N
  look : ℕ → Look N
  /-- whether there is a `navigateNext` -/
  navigable : Bool

/-- The next url, unless it is empty. -/
def BrowserExtractionProbe.next (probe : BrowserExtractionProbe N) : Option String :=
  probe.nextUrl.filter (· ≠ "")

def atEnd (probe : BrowserExtractionProbe N) : Bool :=
  probe.scrollSize - ((2 : ℕ) : N) ≤ probe.scrollTop + probe.viewportSize

def reachedByteLimit (maxBytes completedBytes currentBytes : ℕ) (rawContentBytes : N) : Bool :=
  decide (maxBytes ≤ completedBytes + currentBytes) || decide ((maxBytes : N) ≤ rawContentBytes)

def remainingBytes (maxBytes completedBytes : ℕ) : ℕ := max 1 (maxBytes - completedBytes)

/-- A page that is being read. `looks` are the looks at it so far. -/
structure Page (N : Type) where
  probe : BrowserExtractionProbe N
  value : Value
  noProgress : ℕ
  virtualized : Bool
  scrolls : ℕ
  looks : List (Look N)

/-- How the scrolling of a page ends. -/
inductive Scrolled (N : Type) where
  | ended (page : Page N)
  | stopped (page : Page N) (reason : Reason)
  | cancelled

variable (request : BrowserExtractionCompletenessRequest) (environment : Environment N)

def deadline : N := environment.start + ((positiveInteger request.timeoutMs 1 : ℕ) : N)

/-- What a page is after one more look. -/
def Page.merge (page : Page N) (limit : ℕ) (look : Look N) : Page N :=
  let sample := truncateValue look.value request.format limit
  let progressed := decide (page.probe.scrollTop < look.probe.scrollTop) ||
    decide (page.probe.scrollSize < look.probe.scrollSize) ||
      decide (look.probe.signature ≠ page.probe.signature)
  { probe := look.probe
    value := truncateValue (mergeWithinPage page.value sample request.format) request.format limit
    noProgress := if progressed then 0 else page.noProgress + 1
    virtualized := page.virtualized || (decide (request.format = .html) &&
      decide (look.probe.signature ≠ page.probe.signature) &&
        decide (look.probe.contentBytes ≤ page.probe.contentBytes))
    scrolls := page.scrolls + 1
    looks := page.looks ++ [look] }

/-- The loop to the end of a page. `left` is `maxScrolls - scrolls`, and `tick`
counts the looks of the call. -/
def scrollLoop (totalBytes tick left : ℕ) (page : Page N) : Scrolled N :=
  let look := environment.look (tick + page.looks.length)
  if atEnd page.probe then .ended page
  else if look.aborted then .cancelled
  else if deadline request environment ≤ look.before then .stopped page .timeLimit
  else
    match left with
    | 0 => .stopped page .scrollLimit
    | left+1 =>
      let maxBytes := positiveInteger request.maxBytes 1
      let merged := page.merge request (remainingBytes maxBytes totalBytes) look
      if deadline request environment ≤ look.after then .stopped merged .timeLimit
      else if reachedByteLimit maxBytes totalBytes (valueBytes merged.value) look.probe.contentBytes then
        .stopped merged .byteLimit
      else if positiveInteger request.noProgressLimit 1 ≤ merged.noProgress ∧ ¬ atEnd look.probe then
        .stopped merged .noProgress
      else scrollLoop totalBytes tick left merged

/-- A call between two pages. `seen` are the looks at the pages before. -/
structure Visit (N : Type) where
  pages : ℕ
  scrolls : ℕ
  totalBytes : ℕ
  pageValues : List Value
  visitedNextUrls : List String
  visitedPageSignatures : List String
  seen : List (List (Look N))

def finalizeCurrentPage (visit : Visit N) (page : Page N) (reason : Reason) : BrowserCompletedExtraction :=
  result request (visit.pageValues ++ [page.value]) .partially reason (visit.pages + 1) page.scrolls
    page.probe.next.isSome

/-- The first look at a page. -/
def firstPage (visit : Visit N) (look : Look N) : Page N where
  probe := look.probe
  value := truncateValue look.value request.format
    (remainingBytes (positiveInteger request.maxBytes 1) visit.totalBytes)
  noProgress := 0
  virtualized := false
  scrolls := visit.scrolls
  looks := [look]

def Visit.push (visit : Visit N) (page : Page N) : Visit N where
  pages := visit.pages + 1
  scrolls := page.scrolls
  totalBytes := visit.totalBytes + valueBytes page.value
  pageValues := visit.pageValues ++ [page.value]
  visitedNextUrls := visit.visitedNextUrls
  visitedPageSignatures := visit.visitedPageSignatures
  seen := visit.seen ++ [page.looks]

def partially (visit : Visit N) (reason : Reason) (paginationAvailable : Bool) : BrowserCompletedExtraction :=
  result request visit.pageValues .partially reason visit.pages visit.scrolls paginationAvailable

/-- The loop over the pages, with the looks it took. `left` is
`maxPages - pages`, and `scrollsLeft` is `maxScrolls - scrolls`. -/
def pageLoop (tick scrollsLeft left : ℕ) (visit : Visit N) :
    Option (BrowserCompletedExtraction × List (List (Look N))) :=
  match left with
  | 0 =>
    some (result request visit.pageValues .partially .pageLimit
      (max 1 visit.pages) visit.scrolls false, visit.seen)
  | left+1 =>
    let maxBytes := positiveInteger request.maxBytes 1
    let look := environment.look tick
    let page := firstPage request visit look
    if look.aborted then none
    else if deadline request environment ≤ look.after then
      some (finalizeCurrentPage request visit page .timeLimit, visit.seen ++ [page.looks])
    else if reachedByteLimit maxBytes visit.totalBytes (valueBytes page.value) look.probe.contentBytes then
      some (finalizeCurrentPage request visit page .byteLimit, visit.seen ++ [page.looks])
    else
      match scrollLoop request environment visit.totalBytes tick scrollsLeft page with
      | .cancelled => none
      | .stopped page reason =>
        some (finalizeCurrentPage request visit page reason, visit.seen ++ [page.looks])
      | .ended page =>
        let done := visit.push page
        if page.virtualized then
          some (partially request done .virtualizedContent page.probe.next.isSome, done.seen)
        else
          match page.probe.next with
          | none =>
            some (result request done.pageValues .complete
              (if request.mode = .documentAndSafePagination then .paginationEnd else .endOfDocument)
              done.pages done.scrolls false, done.seen)
          | some next =>
            if request.mode ≠ .documentAndSafePagination then
              some (partially request done .paginationAvailable true, done.seen)
            else if request.format ≠ .text ∨ !environment.navigable then
              some (partially request done .unsafePagination true, done.seen)
            else if left = 0 then some (partially request done .pageLimit true, done.seen)
            else if next ∈ done.visitedNextUrls ∨ page.probe.signature ∈ done.visitedPageSignatures then
              some (partially request done .cycle true, done.seen)
            else
              let lastLook := environment.look (tick + page.looks.length - 1)
              if !lastLook.navigated then some (partially request done .unsafePagination true, done.seen)
              else
                pageLoop (tick + page.looks.length) (scrollsLeft - (page.scrolls - visit.scrolls)) left
                  { done with
                    visitedNextUrls := done.visitedNextUrls ++ [next]
                    visitedPageSignatures := done.visitedPageSignatures ++ [page.probe.signature] }

/-- The answer, and the looks at each page. -/
def extract : Option (BrowserCompletedExtraction × List (List (Look N))) :=
  let maxBytes := positiveInteger request.maxBytes 1
  if request.mode = .visible then
    let look := environment.look 0
    if look.aborted then none
    else
      let value := truncateValue look.value request.format maxBytes
      let bytes := valueBytes value
      some (⟨value, .partially, if maxBytes ≤ bytes then .byteLimit else .visibleOnly, request.mode,
        1, 0, bytes, false⟩, [[look]])
  else
    pageLoop request environment 0 (positiveInteger request.maxScrolls 1) (positiveInteger request.maxPages 1)
      ⟨0, 0, 0, [], [], [], []⟩

end Loops

end AccessStack.Extraction
