/-!
# Sources of random words

A source gives 32-bit words one after another. `Replay` gives the words of a list in turn, from its
start again behind its end, and counts them. A bounded draw scales a word to the bound; where the
fraction left over is large, a second word decides whether the result is one higher.
-/
namespace KeyPartitions.Random

class WordSource (σ : Type) where
  next : σ → UInt32 × σ

structure Replay where
  words : Array UInt32
  used : Nat := 0

instance : WordSource Replay where
  next replay :=
    (replay.words.getD (replay.used % replay.words.size) 0, { replay with used := replay.used + 1 })

variable {σ : Type} [WordSource σ]

/-- A number below a bound from one to `2 ^ 32 - 1`. -/
def below (bound : Nat) (source : σ) : Nat × σ :=
  let (word, source) := WordSource.next source
  let scaled := word.toNat * bound
  let whole := scaled / UInt32.size
  let fraction := scaled % UInt32.size
  if UInt32.size - bound < fraction then
    -- Only here can a longer word have carried into the result.
    let (word, source) := WordSource.next source
    let carried := fraction + word.toNat * bound / UInt32.size
    (if UInt32.size ≤ carried then whole + 1 else whole, source)
  else (whole, source)

end KeyPartitions.Random
