import MakeTree.FileTree

namespace MakeTree

structure Setting where
  files : FileTree
  root : Text
  deriving DecidableEq, Repr

end MakeTree
