import TagPrompt.Proofs.CorpusLayout.Lines
import TagPrompt.Proofs.Search.CorpusLine
import TagPrompt.Source.Location

/-! Reading the prompts of a laid out corpus back. At the offset of a prompt the corpus begins with
the bytes of the prompt and a line end, so how wide the window has to be depends on the prompt alone
and not on what follows it. Only a window that ends beyond all positions reads nothing. -/

namespace TagPrompt.CorpusLayout

variable {prompts : List Text} {corpus : Corpus} {line : Offset × Text}

theorem promptAt_eq (hsize : (ofPrompts prompts).corpus.length < UInt32.size)
    (hserves : corpus.source.ServesAt (ofPrompts prompts).corpus corpus.limit
      (corpus.rangeAt line.1))
    (hfits : corpus.WindowFits line.1) (hline : line ∈ (ofPrompts prompts).lines)
    (hfree : '\n' ∉ line.2) :
    corpus.promptAt line.1 =
      if (Utf8.encode line.2).length < corpus.window.toNat then .prompt line.2.withoutReturn
      else corpus.noLineAt line.1 := by
  obtain ⟨before, after, hsplit, hoffset⟩ := exists_split_of_mem_lines hsize hline
  rw [hsplit, lineBytes, List.append_assoc, List.singleton_append] at hserves
  exact Corpus.promptAt_line hserves hfits hoffset hfree

end TagPrompt.CorpusLayout
