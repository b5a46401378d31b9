import Stm32Handler.Lib.Run
import Stm32Handler.Lib.Ring
import Stm32Handler.Logger.CircularBuffer
import Stm32Handler.Logger.Info
import Stm32Handler.Logger.RxRing
import Stm32Handler.Logger.TxPath
import Stm32Handler.Logger.PrintLog
import Stm32Handler.FatfsLog.Message
import Stm32Handler.FatfsLog.Device
import Stm32Handler.Flash.Driver
import Stm32Handler.Lib.PageLog
import Stm32Handler.Flash.Image
import Stm32Handler.Flash.Block
import Stm32Handler.Flash.Steps
import Stm32Handler.Flash.Write
import Stm32Handler.Flash.RoundTrip
import Stm32Handler.Flash.PageSwitch
import Stm32Handler.Flash.TornBlock
import Stm32Handler.Flash.Verdict
import Stm32Handler.App.TimerManage
import Stm32Handler.App.TriggerSchedule
import Stm32Handler.App.TriggerSlots
import Stm32Handler.App.I2cMonitor
import Stm32Handler.App.IoShadow
import Stm32Handler.App.IoInterrupt
import Stm32Handler.Lib.NorFlash
import Stm32Handler.Spi.W25qBus
import Stm32Handler.Spi.W25q
import Stm32Handler.Spi.W25qWrite
import Stm32Handler.Spi.W25qErase
import Stm32Handler.Lib.MsbFirst
import Stm32Handler.Lib.SpiWire
import Stm32Handler.Spi.SoftSpi
import Stm32Handler.I2c.SoftI2c
import Stm32Handler.I2c.Transfer
import Stm32Handler.I2c.Memory
import Stm32Handler.App.Keys
import Stm32Handler.Lib.CString
import Stm32Handler.Logger.CmdProcess
import Stm32Handler.Logger.Put
import Stm32Handler.Logger.CmdLines
import Stm32Handler.FatfsLog.Record
import Stm32Handler.Logger.PrintLine
import Stm32Handler.Lib.PageRounds
import Stm32Handler.Flash.Wear
import Stm32Handler.Flash.Frame
import Stm32Handler.Flash.BitErrors
import Stm32Handler.Flash.InitLimits
import Stm32Handler.App.LongPress
import Stm32Handler.Alg.Crc
import Stm32Handler.Alg.Modbus
import Stm32Handler.Lib.SelectLine
import Stm32Handler.Spi.W25qLine
import Stm32Handler.Spi.W25qRun
import Stm32Handler.Spi.ChipSelect
import Stm32Handler.Spi.Truthful
import Stm32Handler.App.KeyMotion
import Stm32Handler.App.TimeEscape
import Stm32Handler.Lcd.ShowChar
import Stm32Handler.Lcd.ShowNum
import Stm32Handler.Lcd.ShowString
import Stm32Handler.Rtc.Alarm
import Stm32Handler.Lib.Trimmed
import Stm32Handler.Tpad.Calibration
import Stm32Handler.Dma.CheckFinish
import Stm32Handler.Can.Write
import Stm32Handler.Web.Httpd
import Stm32Handler.Web.Task
import Stm32Handler.Logger.Console
import Stm32Handler.Lib.Frames
import Stm32Handler.Rtos.StreamBuffer
import Stm32Handler.Rtos.StreamWake
import Stm32Handler.FatfsLog.Pipeline
import Stm32Handler.Lib.Raster
import Stm32Handler.Lcd.Panel
import Stm32Handler.I2c.Chips
import Stm32Handler.Lib.Blocks
import Stm32Handler.Rtos.Heap
import Stm32Handler.Lib.Simulate
import Stm32Handler.Spi.W25qSoft
import Stm32Handler.App.ButtonGestures
