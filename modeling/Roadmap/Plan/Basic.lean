import Roadmap.DateToken

namespace Roadmap

structure Share where
  person : String
  portion : Float
  deriving BEq, DecidableEq

structure Phase where
  name : String
  start : Option DateToken
  finish : DateToken
  shares : List Share
  deriving BEq, DecidableEq

structure Project where
  name : String
  phases : List Phase
  deriving BEq, DecidableEq

/-- Adds from left to right. The sum of nothing is the negative zero, which changes no number. -/
def totalOf (portions : List Float) : Float := portions.foldl (· + ·) (-0.0)

namespace Phase

def isChained (p : Phase) : Bool := p.start.isNone

def total (p : Phase) : Float := totalOf (p.shares.map Share.portion)

end Phase

end Roadmap
