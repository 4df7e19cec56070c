import Scenograph.Language

namespace Scenograph

structure GenerateOptions where
  config : Option String := none
  language : Option Language := none
  space : Option String := none
  className : Option String := none
  modern : Bool := false
  folder : Option String := none
  deriving DecidableEq, Repr

inductive Topic where
  | program
  | generate
  | check
  | optimize
  | initConfig
  | help
  deriving DecidableEq, Repr

inductive Command where
  | generate (input : String) (options : GenerateOptions)
  | check (input : String)
  | optimize (input : String)
  | initConfig (path : String)
  | version
  | help (topic : Topic)
  deriving DecidableEq, Repr

end Scenograph
