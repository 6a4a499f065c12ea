import Fern.Proofs.Lexing.Scanner
import Fern.Token.Stream

/-!
Tokens come in the order of their places.

* `Location.Before`: the order of places, by line and then by column.
* `pairwise_before_of_tokensFrom`: each token of a text is before those that follow it, so that no
  two are at the same place (`nodup_location_of_tokenize`).
-/

namespace Fern

namespace Location

/-- One place is before another: on an earlier line, or further to the left on the same. -/
def Before (l k : Location) : Prop := l.line < k.line ∨ l.line = k.line ∧ l.column < k.column

lemma Before.trans {l k m : Location} (h : l.Before k) (h' : k.Before m) : l.Before m := by
  unfold Before at *
  omega

lemma not_before_self (l : Location) : ¬l.Before l := by
  unfold Before
  omega

lemma before_advance (l : Location) (c : Char) : l.Before (l.advance c) := by
  unfold advance Before
  split <;> simp

/-- Any character at all leads to a later place. -/
lemma before_advanceOver (l : Location) (c : Char) (cs : List Char) :
    l.Before (l.advanceOver (c :: cs)) := by
  induction cs generalizing l c with
  | nil => exact l.before_advance c
  | cons d cs ih => exact (l.before_advance c).trans (ih (l.advance c) d)

end Location

/-- The tokens of a text that begins at `l` are at `l` or after it, each before those that
follow. -/
lemma pairwise_before_of_tokensFrom {l : Location} {cs : List Char} {tokens : List Token}
    (h : tokensFrom l cs = .ok tokens) :
    (∀ t ∈ tokens, l = t.location ∨ l.Before t.location) ∧
      tokens.Pairwise fun t u => t.location.Before u.location := by
  fun_induction tokensFrom l cs generalizing tokens with
  | case1 =>
      cases h
      exact ⟨by simp, .nil⟩
  | case2 => cases h
  | case3 l c cs piece hscan ih =>
      obtain ⟨others, hothers, rfl⟩ := Token.map_eq_ok_iff.mp h
      obtain ⟨hplaces, hpairwise⟩ := ih hothers
      have hstep := l.before_advanceOver c piece.more
      have hlater : ∀ t ∈ others, l.Before t.location := by
        intro t ht
        rcases hplaces t ht with heq | hbefore
        · exact heq ▸ hstep
        · exact hstep.trans hbefore
      -- the piece at the front is a token at `l`, or a gap
      have hfirst : ∀ t ∈ (Token.ofPiece l piece).toList, l = t.location := by
        intro t ht
        obtain ⟨w, -, rfl⟩ := Option.map_eq_some_iff.mp (Option.mem_toList.mp ht)
        rfl
      refine ⟨fun t ht => ?_, List.pairwise_append.mpr ⟨?_, hpairwise, fun t ht u hu => ?_⟩⟩
      · exact (List.mem_append.mp ht).imp (hfirst t) (hlater t)
      · cases Token.ofPiece l piece with
        | none => exact .nil
        | some t => exact List.pairwise_singleton _ _
      · exact hfirst t ht ▸ hlater u hu

/-- **Places of tokens.** No two tokens of a source text are at the same place. -/
lemma nodup_location_of_tokenize {source : String} {log : Log} {tokens : List Token}
    (h : (tokenize source log).1 = some tokens) : (tokens.map Token.location).Nodup := by
  have hpairwise := (pairwise_before_of_tokensFrom (tokensFrom_of_tokenize h)).2
  refine List.pairwise_map.mpr (hpairwise.imp ?_)
  exact fun hbefore heq => Location.not_before_self _ (heq ▸ hbefore)

end Fern
