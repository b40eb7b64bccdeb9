import Mathlib.Data.List.Nodup
import Mathlib.Tactic

/-!
Rows of a table as a list in which a key occurs at most once.
-/

namespace Kortecx.Lib.Table

open List

variable {α β : Type} {key : α → β} {rows : List α}

/-- Appending a row whose key is new. -/
theorem nodup_append_singleton (hrows : (rows.map key).Nodup)
    (hnew : key row ∉ rows.map key) : ((rows ++ [row]).map key).Nodup := by
  rw [map_append, map_singleton, nodup_append]
  refine ⟨hrows, nodup_singleton _, ?_⟩
  rintro k hk k' hk' rfl
  rw [mem_singleton.1 hk'] at hk
  exact hnew hk

/-- Replacing rows by rows of the same key. -/
theorem nodup_map_replace (hchange : ∀ row, key (change row) = key row)
    (hrows : (rows.map key).Nodup) : ((rows.map change).map key).Nodup := by
  rw [map_map]
  convert hrows using 2
  funext row
  exact hchange row

end Kortecx.Lib.Table
