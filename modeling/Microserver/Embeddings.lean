import Microserver.RowInvariants

/-!
The vectors of a vector collection. Every write computes them from the text it
stores, so an item always carries the embedding of its own text.
-/
namespace Microserver.Embeddings
open Microserver.Values Microserver.Store Microserver.Programs Microserver.Statements Microserver.Operations
open Microserver.Items Microserver.Cascades Microserver.Histories Microserver.Reachable Microserver.RowInvariants

variable {h : Host}

/-- Every item of a vector collection carries the embedding of its text. -/
def Embedded (h : Host) (s : DB) : Prop :=
  ∀ c ∈ s.collections, c.hasVector = true → ∀ row ∈ items s c.tableName, h.embed row.text = .ok row.embedding

/-- A row of a table with vectors carries the embedding of its text, which has the
    dimensions of the table. -/
def WellEmbedded (h : Host) (kind : TableKind) (row : Row) : Prop :=
  ∀ dimensions, kind = .vec0 dimensions → h.embed row.text = .ok row.embedding ∧
    (row.embedding.length : Int) = dimensions ∧ dimensions % 8 = 0

/-- Whatever is stored is embedded first, and fits the table. -/
theorem wellEmbedded_admitted (call : Call) : Admitted h (WellEmbedded h) call := by
  have admits (text : String) (data : Json) : Admits h (WellEmbedded h) text data := by
    refine ⟨fun _ _ _ => nofun, fun dimensions row same _ computed fits => ?_⟩
    rintro _ ⟨⟩
    rw [same]
    exact ⟨computed, fits⟩
  cases call with
  | insertDocument name id text data => exact admits _ _
  | insertDocumentBulk name batch => exact fun it _ => admits _ _
  | updateDocument name id text data => exact admits _ _
  | createCollection | renameCollection | dropCollection | deleteDocument => trivial

/-- A rewriting keeps the text, and stores its vector or the one there was. -/
theorem wellEmbedded_nullable : Nullable h (WellEmbedded h) := by
  rintro c field row row' ⟨-, text, embedding, -⟩ wellEmbedded dimensions kind
  obtain ⟨carried, fits⟩ := wellEmbedded dimensions kind
  have same : row'.embedding = row.embedding := by
    rcases embedding with kept | ⟨-, computed⟩
    · exact kept
    · rw [carried] at computed
      exact (Except.ok.inj computed).symm
  rw [text, same]
  exact ⟨carried, fits⟩

theorem reached_wellEmbedded (h : Host) (calls : List (Call × List Bool)) : AllRows (WellEmbedded h) (reached h calls) :=
  reached_rows wellEmbedded_nullable fun call _ => wellEmbedded_admitted call.1

/-- Every run of calls leaves the items with the embeddings of their texts. -/
theorem reached_embedded (h : Host) (calls : List (Call × List Bool)) : Embedded h (reached h calls) :=
  fun c registered vector row member =>
    (reached_wellEmbedded h calls c registered row member c.dimensions (mainKind_vector vector)).1

end Microserver.Embeddings
