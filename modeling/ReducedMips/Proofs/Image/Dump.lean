import ReducedMips.Proofs.Image.Grammar
/-!
# Dumps

A dump of words reads back as the memory that holds them, and as no memory of another capacity. A
memory that was read is dumped as its image with the tokens one on a line.
-/
namespace ReducedMips.Image

theorem formatWords_eq_join (words : List Word) :
    formatWords words =
      String.join ((words.map Numeral.binary).map fun t => String.ofList t ++ "\n") := by
  apply String.toList_inj.1
  rw [formatWords, String.toList_ofList, String.toList_join, List.map_map, List.flatMap_map]
  simp

theorem formatWords_of_parseMemory {text : String} {capacity : Nat} {m : Memory}
    (h : parseMemory text capacity = .ok m) : formatWords m.toList =
      String.join ((Text.tokens text.toList).map fun t => String.ofList t ++ "\n") := by
  cases parseMemory_eq_iff.1 h with
  | ok _ _ _ hdigits => rw [formatWords_eq_join, hdigits]

/-- Dumping words and reading the dump gives the words back, if it is asked for as many as there
are. Reading an image and dumping the memory writes the tokens of the image one on a line. -/
theorem dump_reads_back :
    (∀ words capacity, parseMemory (formatWords words) capacity =
      if capacity = words.length then .ok (.ofList words)
      else .error (.lineCount capacity words.length)) ∧
    ∀ text capacity m, parseMemory text capacity = .ok m →
      ∃ tokens, (∀ ts, Text.Tokenizes text.toList ts ↔ ts = tokens) ∧
        formatWords m.toList = String.join (tokens.map fun t => String.ofList t ++ "\n") := by
  constructor
  · intro words capacity
    rw [parseMemory_of_ok (readNumbers_formatWords words), map_ofNat_toNat, List.length_map]
    simp only [eq_comm]
  · intro text capacity m h
    exact ⟨Text.tokens text.toList, fun _ => Text.tokenizes_iff, formatWords_of_parseMemory h⟩

/-- An image with a tab, an ideographic space and no line break at its end. -/
theorem dump_reads_back_spaced :
    parseMemory "\t00000000000000000000000000000101\u3000\n 11111111111111111111111111111110" 2 =
      .ok (.ofList [5, -2]) ∧
    ∃ tokens, (∀ ts, Text.Tokenizes
        "\t00000000000000000000000000000101\u3000\n 11111111111111111111111111111110".toList ts ↔
          ts = tokens) ∧
      formatWords (Memory.ofList [5, -2]).toList =
        String.join (tokens.map fun t => String.ofList t ++ "\n") := by
  have hread : parseMemory
      "\t00000000000000000000000000000101\u3000\n 11111111111111111111111111111110" 2 =
        .ok (.ofList [5, -2]) := rfl
  exact ⟨hread, dump_reads_back.2 _ 2 _ hread⟩

end ReducedMips.Image
