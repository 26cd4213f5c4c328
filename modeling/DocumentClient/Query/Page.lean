import DocumentClient.Json.Record

/-!
# Pages of results

What a query is answered with: some results, and how they relate to all the matches.
-/

set_option autoImplicit false

namespace DocumentClient.Query

structure Page (α : Type) where
  results : List α := []
  totalResults : Nat := 0
  skippedResults : Nat := 0
  indexName : Option String := none
  isStale : Bool := false
deriving Repr, DecidableEq

def Page.record {α : Type} (row : Json.Decoder α) : Json.Record (Page α) :=
  ⟨"QueryResult", {},
    [.needed "Results" (Json.list row) fun results page => { page with results },
     .defaulted "TotalResults" Json.unsigned64 fun totalResults page => { page with totalResults },
     .defaulted "SkippedResults" Json.unsigned64 fun skippedResults page =>
       { page with skippedResults },
     .defaulted "IndexName" (Json.optional Json.text) fun indexName page => { page with indexName },
     .defaulted "IsStale" Json.bool fun isStale page => { page with isStale }]⟩

end DocumentClient.Query
